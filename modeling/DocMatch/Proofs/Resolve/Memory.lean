import DocMatch.Proofs.Fields
import DocMatch.Proofs.Resolve.Chain

/-!
What a session remembers. Every value that it holds follows from the values before it: the pipeline
of its matcher has this value when references are looked up among them. So the memory is closed
under references, and none of its matchers reaches one that is being run.

    remembered   c ↦ 3, b ↦ f(3), a ↦ g(f(3), 3)        a needs b and c, b needs c, c nothing
    chain        x, y                                    none of which a, b or c can reach
-/

namespace DocMatch

namespace Fields

/-- The lookup that only knows what is remembered. -/
def known (remembered : Fields Value) (name : String) : Except EvalError Value :=
  match remembered.get? name with
  | some v => .ok v
  | none => .error (.unknownMatcher name)

theorem known_eq_ok {remembered : Fields Value} {name : String} {v : Value} :
    remembered.known name = .ok v ↔ remembered.get? name = some v := by
  unfold known
  cases remembered.get? name <;> simp

end Fields

/-- Values each of which follows from those before it. -/
inductive Grounded (matchers : Matchers) (document : Value) : Fields Value → Prop
  | nil : Grounded matchers document []
  | snoc {remembered : Fields Value} {name : String} {p : Pipeline} {v : Value} :
    Grounded matchers document remembered → name ∉ remembered.names →
      matchers.get? name = some p → p.run remembered.known document = .ok v →
      Grounded matchers document (remembered ++ [(name, v)])

namespace Grounded

variable {matchers : Matchers} {document : Value} {remembered : Fields Value}

/-- The pipeline of every value that is remembered had it, given what was remembered before. -/
theorem entry (h : Grounded matchers document remembered) {i : Nat} {name : String} {v : Value}
    (hi : remembered[i]? = some (name, v)) :
    ∃ p, matchers.get? name = some p ∧
      p.run (Fields.known (remembered.take i)) document = .ok v := by
  induction h with
  | nil => simp at hi
  | @snoc before other p u _ _ hp hrun ih =>
    rcases Nat.lt_trichotomy i before.length with hlt | rfl | hgt
    · rw [List.getElem?_append_left hlt] at hi
      rw [List.take_append_of_le_length (Nat.le_of_lt hlt)]
      exact ih hi
    · simp only [List.getElem?_concat_length, Option.some.injEq, Prod.mk.injEq] at hi
      obtain ⟨rfl, rfl⟩ := hi
      rw [List.take_left' rfl]
      exact ⟨p, hp, hrun⟩
    · rw [List.getElem?_eq_none (by simp; omega)] at hi
      cases hi

/-- What a matcher that is remembered refers to was remembered before it. -/
theorem reference (h : Grounded matchers document remembered) {i : Nat} {name other : String}
    {v : Value} (hi : remembered[i]? = some (name, v)) (href : matchers.RefersTo name other) :
    ∃ j < i, ∃ u, remembered[j]? = some (other, u) := by
  obtain ⟨p, hp, hrun⟩ := h.entry hi
  obtain ⟨q, hq, hother⟩ := href
  cases hp.symm.trans hq
  obtain ⟨u, hu⟩ := Pipeline.lookup_ok_of_run hrun hother
  have hmem := Fields.mem_of_get? (Fields.known_eq_ok.1 hu)
  obtain ⟨j, hj, hju⟩ := List.mem_take_iff_getElem.1 hmem
  exact ⟨j, by omega, u, List.getElem?_eq_some_iff.2 ⟨by omega, hju⟩⟩

/-- Nothing is remembered twice. -/
theorem nodup_names (h : Grounded matchers document remembered) : remembered.names.Nodup := by
  induction h with
  | nil => exact List.nodup_nil
  | @snoc before name p v _ hname _ _ ih =>
    rw [Fields.names_append, Fields.names_cons, Fields.names_nil, ← List.concat_eq_append]
    exact ih.concat hname

/-- What is remembered has been declared. -/
theorem declared (h : Grounded matchers document remembered) {name : String}
    (hname : name ∈ remembered.names) : name ∈ matchers.names := by
  induction h with
  | nil => cases hname
  | @snoc before other p v _ _ hp _ ih =>
    rcases List.mem_append.1 (Fields.names_append .. ▸ hname) with hb | ho
    · exact ih hb
    · obtain rfl := List.mem_singleton.1 ho
      exact Fields.mem_names_of_get? hp

/-- What is remembered is the value in every chain of other matchers. -/
theorem valueIn_eq (h : Grounded matchers document remembered) {chain : List String}
    (hchain : ∀ name ∈ chain, name ∉ remembered.names) {name : String} {v : Value}
    (hv : remembered.get? name = some v) : matchers.valueIn document chain name = .ok v := by
  induction h generalizing chain name v with
  | nil => cases hv
  | @snoc before other p u _ hother hp hrun ih =>
    simp only [Fields.names_append, List.mem_append, not_or] at hchain
    have hbefore : ∀ name ∈ chain, name ∉ before.names := fun name hc => (hchain name hc).1
    rw [Fields.get?_append] at hv
    cases hb : before.get? name with
    | some w =>
      rw [hb] at hv
      cases hv
      exact ih hbefore hb
    | none =>
      -- the last matcher is run in a chain that it joins, which is still apart from what was before
      rw [hb, Option.none_or] at hv
      obtain ⟨rfl, rfl⟩ := Prod.mk.inj (List.mem_singleton.1 (Fields.mem_of_get? hv))
      have hc : name ∉ chain := fun hc => (hchain name hc).2 (by simp)
      rw [Matchers.valueIn_of_declared hc hp]
      refine Pipeline.run_eq_ok_of_agree (fun x w hw => ?_) hrun
      have hlonger : ∀ y ∈ chain ++ [name], y ∉ before.names :=
        List.forall_mem_append.2 ⟨hbefore, List.forall_mem_singleton.2 hother⟩
      exact ih hlonger (Fields.known_eq_ok.1 hw)

end Grounded

end DocMatch
