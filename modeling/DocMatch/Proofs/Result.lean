/-!
Results that are a value or an error: when steps in a row succeed, and what becomes of them when
their errors are told in another way.
-/

namespace DocMatch

variable {ε ε' α β : Type}

/-- A step that succeeds with what the next one goes on with. -/
theorem bind_eq_ok {r : Except ε α} {next : α → Except ε β} {b : β} :
    r >>= next = .ok b ↔ ∃ a, r = .ok a ∧ next a = .ok b := by
  cases r with
  | ok a => simp [bind, Except.bind]
  | error e => simp [bind, Except.bind]

theorem mapError_eq_ok {f : ε → ε'} {r : Except ε α} {a : α} :
    r.mapError f = .ok a ↔ r = .ok a := by
  cases r with
  | ok b => constructor <;> rintro ⟨⟩ <;> rfl
  | error e => constructor <;> rintro ⟨⟩

theorem map_eq_ok {f : α → β} {r : Except ε α} {b : β} :
    r.map f = .ok b ↔ ∃ a, r = .ok a ∧ f a = b := by
  cases r <;> simp [Except.map]

/-- Telling errors in another way can be done step by step. -/
theorem mapError_bind (f : ε → ε') (r : Except ε α) (next : α → Except ε β) :
    (r >>= next).mapError f = r.mapError f >>= fun a => (next a).mapError f := by
  cases r with
  | ok a => rfl
  | error e => rfl

/-- The error that a result is, if it is one. -/
def faultOf? : Except ε α → Option ε
  | .ok _ => none
  | .error e => some e

theorem faultOf?_eq_some_iff {r : Except ε α} {e : ε} : faultOf? r = some e ↔ r = .error e := by
  cases r <;> simp [faultOf?]

@[simp] theorem faultOf?_map (f : α → β) (r : Except ε α) : faultOf? (r.map f) = faultOf? r := by
  cases r <;> rfl

@[simp] theorem faultOf?_bind_pure (f : α → β) (r : Except ε α) :
    faultOf? (r >>= fun a => pure (f a)) = faultOf? r := by
  cases r <;> rfl

/-- Of two steps in a row the second one's error counts if the first one has none. -/
theorem faultOf?_bind {r : Except ε α} {next : α → Except ε β} {later : Option ε}
    (h : ∀ a, faultOf? (next a) = later) : faultOf? (r >>= next) = (faultOf? r).or later := by
  cases r with
  | ok a => exact h a
  | error e => rfl

end DocMatch
