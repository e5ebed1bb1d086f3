import DocMatch.Proofs.Resolve.History

/-!
What a result depends on. Resolving a name comes to the matchers that the name reaches and to no
others, so nothing else in a file makes a difference: not what it declares besides, not the order.

    b = matchers.c.x           c = matchers.b
    c = matchers.b             d = y
                               b = matchers.c.x

    b reaches b and c, which both files declare alike: both give the cycle b, c, b
-/

namespace DocMatch.Matchers

variable {matchers other : Matchers} {name : String}

/-- Names that have among them all that they refer to have among them all that they reach. -/
theorem mem_of_reach {names : List String}
    (hclosed : ∀ entry ∈ matchers, entry.1 ∈ names → ∀ x ∈ entry.2.references, x ∈ names)
    (hname : name ∈ names) {x : String}
    (hreach : Relation.ReflTransGen matchers.RefersTo name x) : x ∈ names := by
  induction hreach with
  | refl => exact hname
  | tail _ href ih =>
    obtain ⟨p, hp, hx⟩ := href
    exact hclosed _ (Fields.mem_of_get? hp) ih _ (Pipeline.mem_references.2 hx)

/-- In every chain a name has the same value in two files that agree on all that it reaches. -/
theorem valueIn_eq_of_agree (document : Value) (chain : List String)
    (h : ∀ x, Relation.ReflTransGen matchers.RefersTo name x → matchers.get? x = other.get? x) :
    matchers.valueIn document chain name = other.valueIn document chain name := by
  induction chain using chain_induction matchers generalizing name with
  | step chain ih =>
    have hname : matchers.get? name = other.get? name := h name .refl
    by_cases hc : name ∈ chain
    · rw [valueIn_of_mem hc, valueIn_of_mem hc]
    · cases hp : matchers.get? name with
      | none => rw [valueIn_of_unknown hc hp, valueIn_of_unknown hc (hname.symm.trans hp)]
      | some p =>
        rw [valueIn_of_declared hc hp, valueIn_of_declared hc (hname.symm.trans hp)]
        -- what the pipeline refers to reaches no more than the name does
        refine Pipeline.run_congr fun x hx => ih name p hp hc fun y hy => ?_
        exact h y (.head ⟨p, hp, hx⟩ hy)

/-- Two files that declare alike, or both leave undeclared, a name and all that can be reached from
it along the references of the first give the same result for the name: the same value or the same
error, a cycle with its names. -/
theorem fresh_eq_of_agree (document : Value)
    (h : ∀ x, Relation.ReflTransGen matchers.RefersTo name x → matchers.get? x = other.get? x) :
    matchers.fresh document name = other.fresh document name := by
  rw [fresh_eq_valueIn, fresh_eq_valueIn]
  exact valueIn_eq_of_agree document [] h

/-- Two matchers that refer to each other. -/
def crossed : Matchers :=
  [("b", ⟨⟨.filter, .path [.key referenceWord, .key "c", .key "x"], none⟩, []⟩),
    ("c", ⟨⟨.replace, .path [.key referenceWord, .key "b"], none⟩, []⟩)]

/-- The same two in another order, and one besides. -/
def crossedAmong : Matchers :=
  [("c", ⟨⟨.replace, .path [.key referenceWord, .key "b"], none⟩, []⟩),
    ("d", ⟨⟨.filter, .path [.key "y"], none⟩, []⟩),
    ("b", ⟨⟨.filter, .path [.key referenceWord, .key "c", .key "x"], none⟩, []⟩)]

/-- Both files come to the same cycle. -/
theorem fresh_eq_of_agree_crossed :
    (∀ x, Relation.ReflTransGen crossed.RefersTo "b" x → crossed.get? x = crossedAmong.get? x) ∧
      crossedAmong.fresh .null "b" = .error (.cycle ["b", "c", "b"]) := by
  have hagree : ∀ x, Relation.ReflTransGen crossed.RefersTo "b" x →
      crossed.get? x = crossedAmong.get? x := by
    intro x hreach
    have hx : x ∈ ["b", "c"] := mem_of_reach (by decide) (by decide) hreach
    have hall : ∀ y ∈ ["b", "c"], crossed.get? y = crossedAmong.get? y := by decide
    exact hall x hx
  have hcycle : crossed.fresh .null "b" = .error (.cycle ["b", "c", "b"]) := by cbv
  exact ⟨hagree, (fresh_eq_of_agree .null hagree).symm.trans hcycle⟩

end DocMatch.Matchers
