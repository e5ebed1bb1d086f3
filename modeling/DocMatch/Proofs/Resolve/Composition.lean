import DocMatch.Proofs.Resolve.History

/-!
The meaning of a matcher. Resolving runs the pipelines of all that a matcher refers to within one
chain, yet what comes out can be said one matcher at a time: it is what the pipeline of the matcher
makes of the results that the others have by themselves. Only the names in the error of a cycle
depend on where the chain began.

    a = matchers.b | matchers.c        a = its stages, run on what b and c are by themselves
    b = matchers.a                     a: cycle a, b, a       b: cycle b, a, b
-/

namespace DocMatch

namespace Matchers

variable {matchers : Matchers} {document : Value} {name : String} {p : Pipeline}

/-- A matcher that is part of no cycle is what its pipeline makes of the values of others. -/
theorem run_valueIn_of_settled (hp : matchers.get? name = some p)
    (h : Settled (matchers.valueIn document [] name)) :
    p.run (matchers.valueIn document []) document = matchers.valueIn document [] name := by
  rw [valueIn_of_declared List.not_mem_nil hp] at h ⊢
  exact Pipeline.run_eq_of_agree (valueIn_of_subset (List.nil_subset _)) h

/-- A matcher that is part of a cycle has a pipeline that meets one. -/
theorem settled_of_run_valueIn (hp : matchers.get? name = some p)
    (h : Settled (p.run (matchers.valueIn document []) document)) :
    Settled (matchers.valueIn document [] name) := by
  -- otherwise the others do not notice the matcher in the chain, and its run is the settled one
  refine Classical.byContradiction fun hcyclic => hcyclic ?_
  have hrun : p.run (matchers.valueIn document [name]) document =
      p.run (matchers.valueIn document []) document :=
    Pipeline.run_eq_of_agree (valueIn_of_cyclic hcyclic) h
  rw [valueIn_of_declared List.not_mem_nil hp, List.nil_append, hrun]
  exact h

/-- The results of a matcher by itself and of its pipeline over the others by themselves are the
same, unless they are both the error of a cycle. -/
theorem fresh_eq_run (document : Value) (hp : matchers.get? name = some p) :
    matchers.fresh document name = p.run (matchers.fresh document) document ∨
      ¬ Settled (matchers.fresh document name) ∧
      ¬ Settled (p.run (matchers.fresh document) document) := by
  have hfresh : matchers.fresh document = matchers.valueIn document [] :=
    funext (matchers.fresh_eq_valueIn document)
  rw [hfresh]
  by_cases h : Settled (matchers.valueIn document [] name)
  · exact Or.inl (run_valueIn_of_settled hp h).symm
  · exact Or.inr ⟨h, fun hrun => h (settled_of_run_valueIn hp hrun)⟩

/-- A result that is no cycle comes from a matcher exactly when it comes from its pipeline. -/
theorem fresh_eq_iff (document : Value) (hp : matchers.get? name = some p)
    {r : Except EvalError Value} (hr : Settled r) :
    matchers.fresh document name = r ↔ p.run (matchers.fresh document) document = r := by
  rcases fresh_eq_run document hp with heq | ⟨hleft, hright⟩
  · rw [heq]
  · exact ⟨fun h => absurd (h ▸ hr) hleft, fun h => absurd (h ▸ hr) hright⟩

/-- A matcher fails with a cycle exactly when its pipeline does. -/
theorem fresh_cycle_iff (document : Value) (hp : matchers.get? name = some p) :
    (∃ chain, matchers.fresh document name = .error (.cycle chain)) ↔
      ∃ chain, p.run (matchers.fresh document) document = .error (.cycle chain) := by
  rcases fresh_eq_run document hp with heq | ⟨hleft, hright⟩
  · rw [heq]
  · exact ⟨fun _ => not_settled_iff.1 hright, fun _ => not_settled_iff.1 hleft⟩

/-- A declared matcher has the value that its pipeline has when every reference is answered with
what the other matcher gives by itself; it fails with an error that is no cycle exactly when the
pipeline fails with that error, and with a cycle exactly when the pipeline does. An error that is no
cycle is the unchanged error of a matcher that it refers to, or that of a stage of its own: then it
comes up whatever the failing ones among the others are replaced by. A cycle always comes from a
matcher that it refers to. -/
theorem fresh_compositional (document : Value) (hp : matchers.get? name = some p) :
    (∀ v, matchers.fresh document name = .ok v ↔
      p.run (matchers.fresh document) document = .ok v) ∧
    (∀ e : EvalError, ¬ e.IsCycle →
      (matchers.fresh document name = .error e ↔
        p.run (matchers.fresh document) document = .error e)) ∧
    ((∃ chain, matchers.fresh document name = .error (.cycle chain)) ↔
      ∃ chain, p.run (matchers.fresh document) document = .error (.cycle chain)) ∧
    (∀ e : EvalError, ¬ e.IsCycle → matchers.fresh document name = .error e →
      (∃ other, p.RefersTo other ∧ matchers.fresh document other = .error e) ∨
      ∀ g : String → Except EvalError Value,
        (∀ other v, matchers.fresh document other = .ok v → g other = .ok v) →
          p.run g document = .error e) ∧
    ((∃ chain, matchers.fresh document name = .error (.cycle chain)) →
      ∃ other, p.RefersTo other ∧
        ∃ chain, matchers.fresh document other = .error (.cycle chain)) := by
  refine ⟨fun v => fresh_eq_iff document hp (okOr_ok v), fun e he => ?_,
    fresh_cycle_iff document hp, fun e he h => ?_, fun h => ?_⟩
  · exact fresh_eq_iff document hp (okOr_error.2 he)
  · have hrun := (fresh_eq_iff document hp (okOr_error.2 he)).1 h
    exact (Pipeline.of_run_error hrun).imp_right fun hstage => hstage.2
  · obtain ⟨chain, hrun⟩ := (fresh_cycle_iff document hp).1 h
    obtain ⟨other, href, hother⟩ := Pipeline.of_run_cycle hrun
    exact ⟨other, href, chain, hother⟩

/-- A matcher that fails, one that refers to it, and two that refer to each other. -/
def faulty : Matchers :=
  [("bad", ⟨⟨.filter, .path [.key "interfaces", .key "mtu"],
      some (.literal (.integer 1500))⟩, []⟩),
    ("dependent", ⟨⟨.filter, .path [.key referenceWord, .key "bad"], none⟩,
      [⟨.filter, .path [.key "interfaces"], none⟩]⟩),
    ("A", ⟨⟨.filter, .path [.key referenceWord, .key "B", .key "x"], none⟩, []⟩),
    ("B", ⟨⟨.filter, .path [.key referenceWord, .key "A", .key "x"], none⟩, []⟩)]

/-- A document with one interface. -/
def oneInterface : Value :=
  .mapping [("interfaces", .sequence [.mapping [("name", .string "eth1")]])]

/-- One matcher passes on the error of another, and two meet each other in a cycle. -/
theorem fresh_compositional_faulty :
    faulty.fresh oneInterface "dependent" = .error (.walk (.notFound "mtu")) ∧
    ∃ chain, faulty.fresh oneInterface "A" = .error (.cycle chain) := by
  have hdependent : faulty.get? "dependent" = some _ := rfl
  have hA : faulty.get? "A" = some _ := rfl
  refine ⟨((fresh_compositional oneInterface hdependent).2.1 _ id).2 ?_,
    (fresh_compositional oneInterface hA).2.2.1.2 ⟨["B", "A", "B"], ?_⟩⟩
  · cbv
  · cbv

end Matchers

end DocMatch
