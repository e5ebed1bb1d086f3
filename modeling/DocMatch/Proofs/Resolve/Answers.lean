import DocMatch.Proofs.Resolve.Demand

/-!
Runs over a plain lookup: every name has one answer, a value or an error. What a run makes of the
answers only depends on those that it asks for, and up to an error only on the values among them.

    lookup      b ↦ 1, c ↦ error, d ↦ 2
    a = matchers.b | matchers.c        fails with the error of c, whatever d is
    a = matchers.b.x | matchers.c      fails by itself at b.x, whatever c is
-/

namespace DocMatch

/-- A result that is a value, or an error in `K`. -/
def OkOr (K : EvalError → Prop) {α : Type} (r : Except EvalError α) : Prop :=
  ∀ e, r = .error e → K e

section

variable {α : Type} {P : String → Prop} {E K : EvalError → Prop}
  {g g' : String → Except EvalError Value}

theorem okOr_ok (a : α) : OkOr K (.ok a : Except EvalError α) := nofun

theorem okOr_error {e : EvalError} : OkOr K (.error e : Except EvalError α) ↔ K e := by
  refine ⟨fun h => h e rfl, fun h e' he => ?_⟩
  cases he
  exact h

namespace Inquiry

theorem answer_ended (r : Except EvalError α) : (ended r).answer g = r := by
  cases r with
  | ok a => rfl
  | error e => rfl

theorem answer_ask_ok {name : String} {v : Value} (h : g name = .ok v)
    (next : Value → Inquiry α) : (ask name next).answer g = (next v).answer g := by
  rw [answer, h]
  rfl

theorem answer_ask_error {name : String} {e : EvalError} (h : g name = .error e)
    (next : Value → Inquiry α) : (ask name next).answer g = .error e := by
  rw [answer, h]
  rfl

/-- An error is either the error of an answer, or the run raises it itself; then it does so whatever
is answered where an error was. -/
theorem Within.of_answer_error {t : Inquiry α} (ht : t.Within P E) {e : EvalError}
    (h : t.answer g = .error e) :
    (∃ name, P name ∧ g name = .error e) ∨
      (E e ∧ ∀ g' : String → Except EvalError Value,
        (∀ name v, g name = .ok v → g' name = .ok v) → t.answer g' = .error e) := by
  induction t with
  | ended r =>
    cases r with
    | ok a => cases h
    | error e' =>
      cases h
      exact Or.inr ⟨ht, fun _ _ => rfl⟩
  | ask name next ih =>
    cases hg : g name with
    | ok v =>
      rw [answer_ask_ok hg] at h
      refine (ih v (ht.2 v) h).imp_right fun ⟨he, hrest⟩ => ⟨he, fun g' hg' => ?_⟩
      rw [answer_ask_ok (hg' name v hg)]
      exact hrest g' hg'
    | error e' =>
      rw [answer_ask_error hg] at h
      cases h
      exact Or.inl ⟨name, ht.1, hg⟩

/-- A run that has a value has got one for some name in `P`. -/
theorem Passes.of_answer_ok {t : Inquiry α} (ht : t.Passes P) {a : α} (h : t.answer g = .ok a) :
    ∃ name, P name ∧ ∃ v, g name = .ok v := by
  induction t with
  | ended r =>
    cases r with
    | ok _ => exact ht.elim
    | error e => cases h
  | ask name next ih =>
    cases hg : g name with
    | error e =>
      rw [answer_ask_error hg] at h
      cases h
    | ok v =>
      rcases ht with hname | hnext
      · exact ⟨name, hname, v, hg⟩
      · rw [answer_ask_ok hg] at h
        exact ih v (hnext v) h

/-- A run has the same result over a lookup that answers otherwise only where there was an error
outside `K`, unless its result was such an error. -/
theorem answer_eq_of_agree {t : Inquiry α} (hg : ∀ name, OkOr K (g name) → g' name = g name)
    (h : OkOr K (t.answer g)) : t.answer g' = t.answer g := by
  induction t with
  | ended r => rw [answer_ended, answer_ended]
  | ask name next ih =>
    have hname := hg name
    cases hr : g name with
    | ok v =>
      rw [hr] at hname
      rw [answer_ask_ok hr] at h ⊢
      rw [answer_ask_ok (hname (okOr_ok v))]
      exact ih v h
    | error e =>
      rw [hr] at hname
      rw [answer_ask_error hr] at h ⊢
      rw [answer_ask_error (hname (okOr_error.2 (okOr_error.1 h)))]

/-- Over a lookup whose errors are translated a run has its own error translated, if the translation
leaves the errors alone that the run raises itself. -/
theorem Within.answer_mapError {t : Inquiry α} (ht : t.Within P E) {f : EvalError → EvalError}
    (hf : ∀ e, E e → f e = e) (hg : ∀ name, P name → g' name = (g name).mapError f) :
    t.answer g' = (t.answer g).mapError f := by
  induction t with
  | ended r =>
    cases r with
    | ok a => rfl
    | error e =>
      rw [answer_ended, answer_ended]
      exact congrArg Except.error (hf e ht).symm
  | ask name next ih =>
    have hname := hg name ht.1
    cases hr : g name with
    | ok v =>
      rw [hr] at hname
      rw [answer_ask_ok hr, answer_ask_ok hname]
      exact ih v (ht.2 v)
    | error e =>
      rw [hr] at hname
      rw [answer_ask_error hr, answer_ask_error hname]
      rfl

end Inquiry

/-- Stages over a lookup whose errors are translated have their own error translated. -/
theorem runStages_mapError {stages : List Stage} {f : EvalError → EvalError}
    (hf : ∀ e, e.OfStage → f e = e)
    (hg : ∀ stage ∈ stages, ∀ path ∈ stage.paths, ∀ name, path.RefersTo name →
      g' name = (g name).mapError f) (input : Value) :
    runStages g' stages input = (runStages g stages input).mapError f := by
  rw [runStages_eq_answer g', runStages_eq_answer g]
  exact (runStages_within hg input).answer_mapError hf fun _ hname => hname

namespace Pipeline

variable {p : Pipeline} {document : Value}

theorem run_eq_of_agree (hg : ∀ name, OkOr K (g name) → g' name = g name)
    (h : OkOr K (p.run g document)) : p.run g' document = p.run g document := by
  rw [run_eq_answer g] at h ⊢
  rw [run_eq_answer g']
  exact Inquiry.answer_eq_of_agree hg h

/-- A run that has a value has it also over any lookup that has the same values. -/
theorem run_eq_ok_of_agree {v : Value} (hg : ∀ name u, g name = .ok u → g' name = .ok u)
    (h : p.run g document = .ok v) : p.run g' document = .ok v := by
  have hagree : ∀ name, OkOr (fun _ => False) (g name) → g' name = g name := by
    intro name hname
    cases hu : g name with
    | ok u => exact hg name u hu
    | error e => exact (hname e hu).elim
  exact (run_eq_of_agree hagree (h ▸ okOr_ok v)).trans h

/-- An error of a pipeline is the error of a matcher that it refers to, or that of a stage. -/
theorem of_run_error {e : EvalError} (h : p.run g document = .error e) :
    (∃ name, p.RefersTo name ∧ g name = .error e) ∨
      (e.OfStage ∧ ∀ g' : String → Except EvalError Value,
        (∀ name v, g name = .ok v → g' name = .ok v) → p.run g' document = .error e) := by
  rw [run_eq_answer g] at h
  refine ((p.run_within document).of_answer_error h).imp_right fun ⟨he, hrest⟩ => ⟨he, ?_⟩
  intro g' hg'
  rw [run_eq_answer g']
  exact hrest g' hg'

/-- No stage raises a cycle itself: it is the error of a matcher that the pipeline refers to. -/
theorem of_run_cycle {walk : List String} (h : p.run g document = .error (.cycle walk)) :
    ∃ name, p.RefersTo name ∧ g name = .error (.cycle walk) := by
  rcases of_run_error h with hother | ⟨hstage, _⟩
  · exact hother
  · exact hstage.elim

/-- A pipeline that has a value has got one for every matcher that it refers to. -/
theorem lookup_ok_of_run {v : Value} (h : p.run g document = .ok v) {name : String}
    (hname : p.RefersTo name) : ∃ u, g name = .ok u := by
  obtain ⟨path, hpath, href⟩ := hname
  rw [run_eq_answer g] at h
  have hpass := run_passes hpath (P := (· = name)) (Or.inl ⟨name, rfl, href⟩) document
  obtain ⟨_, rfl, hu⟩ := hpass.of_answer_ok h
  exact hu

/-- A pipeline over a lookup whose errors are translated has its own error translated. -/
theorem run_mapError {f : EvalError → EvalError} (hf : ∀ e, e.OfStage → f e = e)
    (hg : ∀ name, p.RefersTo name → g' name = (g name).mapError f) :
    p.run g' document = (p.run g document).mapError f := by
  refine runStages_mapError hf (fun stage hstage path hpath name hname => ?_) document
  exact hg name ⟨path, List.mem_flatMap.2 ⟨stage, hstage, hpath⟩, hname⟩

/-- A pipeline makes the same of two lookups that answer alike what it refers to. -/
theorem run_congr (hg : ∀ name, p.RefersTo name → g' name = g name) :
    p.run g' document = p.run g document := by
  have hid : ∀ {α : Type} (r : Except EvalError α), r.mapError id = r := by
    intro α r
    cases r <;> rfl
  rw [run_mapError (f := id) (fun _ _ => rfl) fun name hname => (hg name hname).trans (hid _).symm]
  exact hid _

/-- A pipeline that has a value does not misuse the reserved word. -/
theorem not_misuses_of_run {v : Value} (h : p.run g document = .ok v) : ¬ p.Misuses := by
  rintro ⟨path, hpath, hmisuse⟩
  rw [run_eq_answer g] at h
  have hpass := run_passes hpath (P := fun _ => False) (Or.inr hmisuse) document
  obtain ⟨_, hno, _⟩ := hpass.of_answer_ok h
  exact hno

end Pipeline

end

end DocMatch
