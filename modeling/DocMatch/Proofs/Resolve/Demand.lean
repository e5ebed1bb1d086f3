import DocMatch.Proofs.Resolve.Inquiry

/-!
What a run asks for. A run of a pipeline asks only for matchers that its paths refer to, and it has
a value only once it has asked for all of them. The errors that it raises itself never say that a
matcher is unknown or part of a cycle: such an error always comes from an answer.

    a = matchers.b.x == matchers.c | matchers.d

    ask c ──▶ ask b ──▶ ask d ──▶ value       a run that succeeds has asked for c, b and d
      └──▶ error  └──▶ error  └──▶ error      a run that fails has asked for the first few
-/

namespace DocMatch

/-- An error that a stage raises itself. -/
def EvalError.OfStage : EvalError → Prop
  | .unknownMatcher _ | .cycle _ => False
  | _ => True

namespace Inquiry

variable {α β : Type} {P : String → Prop} {E : EvalError → Prop}

/-- A run asks no name outside `P`, and its own errors are all in `E`. -/
def Within (P : String → Prop) (E : EvalError → Prop) : Inquiry α → Prop
  | ended (.ok _) => True
  | ended (.error e) => E e
  | ask name next => P name ∧ ∀ v, (next v).Within P E

/-- A run has no value before it has asked for some name in `P`. -/
def Passes (P : String → Prop) : Inquiry α → Prop
  | ended (.ok _) => False
  | ended (.error _) => True
  | ask name next => P name ∨ ∀ v, (next v).Passes P

theorem Within.bind {t : Inquiry α} {f : α → Inquiry β} (ht : t.Within P E)
    (hf : ∀ a, (f a).Within P E) : (t >>= f).Within P E := by
  induction t with
  | ended r =>
    cases r with
    | ok a => exact hf a
    | error e => exact ht
  | ask name next ih => exact ⟨ht.1, fun v => ih v (ht.2 v)⟩

theorem Within.mono {Q : String → Prop} {t : Inquiry α} (ht : t.Within P E)
    (h : ∀ name, P name → Q name) : t.Within Q E := by
  induction t with
  | ended r =>
    cases r with
    | ok a => exact trivial
    | error e => exact ht
  | ask name next ih => exact ⟨h name ht.1, fun v => ih v (ht.2 v)⟩

theorem Passes.bind {t : Inquiry α} (ht : t.Passes P) (f : α → Inquiry β) :
    (t >>= f).Passes P := by
  induction t with
  | ended r =>
    cases r with
    | ok a => exact ht.elim
    | error e => exact trivial
  | ask name next ih =>
    rcases ht with hname | hnext
    · exact Or.inl hname
    · exact Or.inr fun v => ih v (hnext v)

theorem Passes.of_bind (t : Inquiry α) {f : α → Inquiry β} (hf : ∀ a, (f a).Passes P) :
    (t >>= f).Passes P := by
  induction t with
  | ended r =>
    cases r with
    | ok a => exact hf a
    | error e => exact trivial
  | ask name next ih => exact Or.inr ih

end Inquiry

namespace Stage

/-- The path that a stage works on is its left argument. -/
theorem left_of_target {stage : Stage} {p : Path} (hp : stage.target = .ok p) :
    stage.left = .path p := by
  obtain ⟨operator, left, right⟩ := stage
  cases operator <;> cases left <;> simp_all [target]

/-- A stage that works on a path has this path and that of its right argument. -/
theorem mem_paths {stage : Stage} {p path : Path} (hp : stage.target = .ok p) :
    path ∈ stage.paths ↔ path = p ∨ ∃ right ∈ stage.right, path ∈ right.path? := by
  have hleft := left_of_target hp
  obtain ⟨operator, left, right⟩ := stage
  subst hleft
  cases right with
  | none => simp [paths, arguments, Argument.path?]
  | some right => simp [paths, arguments, Argument.path?]

theorem ofStage_of_target {stage : Stage} {e : EvalError} (h : stage.target = .error e) :
    e.OfStage := by
  unfold target at h
  split at h <;> cases h <;> exact trivial

end Stage

/-! ### A run asks only for what its paths refer to -/

section

variable {P : String → Prop}

theorem EvalError.ofWalk_within (r : Except WalkError Value) :
    (ofWalk r : Inquiry Value).Within P OfStage := by
  cases r with
  | ok v => exact trivial
  | error e => exact trivial

theorem Path.locate_within {path : Path} (h : ∀ name, path.RefersTo name → P name)
    (input : Value) : (path.locate Inquiry.lookup input).Within P EvalError.OfStage := by
  unfold Path.locate
  cases hs : path.source with
  | input rest => exact trivial
  | matcher name rest => exact ⟨h name (refersTo_iff.2 ⟨rest, hs⟩), fun _ => trivial⟩
  | reserved => exact trivial

theorem Argument.evaluate_within {a : Argument}
    (h : ∀ path ∈ a.path?, ∀ name, path.RefersTo name → P name) (input : Value) :
    (a.evaluate Inquiry.lookup input).Within P EvalError.OfStage := by
  cases a with
  | literal l => exact trivial
  | path p =>
    refine (Path.locate_within (h p rfl) input).bind fun located => ?_
    refine (EvalError.ofWalk_within _).bind fun found => ?_
    cases found.toLiteral? with
    | none => exact trivial
    | some l => exact trivial

theorem Stage.run_within {stage : Stage}
    (h : ∀ path ∈ stage.paths, ∀ name, path.RefersTo name → P name) (input : Value) :
    (stage.run Inquiry.lookup input).Within P EvalError.OfStage := by
  unfold Stage.run
  cases hp : stage.target with
  | error e => exact ofStage_of_target hp
  | ok p =>
    have hright : (stage.literal? Inquiry.lookup input).Within P EvalError.OfStage := by
      unfold Stage.literal?
      cases hr : stage.right with
      | none => exact trivial
      | some right =>
        refine (Argument.evaluate_within (fun path hpath => h path ?_) input).bind fun _ => trivial
        exact (mem_paths hp).2 (Or.inr ⟨right, hr, hpath⟩)
    have hleft := Path.locate_within (h p ((mem_paths hp).2 (Or.inl rfl))) input
    exact hright.bind fun _ => hleft.bind fun _ => EvalError.ofWalk_within _

theorem runStages_within {stages : List Stage}
    (h : ∀ stage ∈ stages, ∀ path ∈ stage.paths, ∀ name, path.RefersTo name → P name)
    (input : Value) : (runStages Inquiry.lookup stages input).Within P EvalError.OfStage := by
  induction stages generalizing input with
  | nil => exact trivial
  | cons stage rest ih =>
    refine (Stage.run_within (h stage (List.mem_cons_self ..)) input).bind fun v => ?_
    exact ih (fun other hother => h other (List.mem_cons_of_mem _ hother)) v

/-- A run of a pipeline asks only for matchers that the pipeline refers to. -/
theorem Pipeline.run_within (p : Pipeline) (document : Value) :
    (p.run Inquiry.lookup document).Within p.RefersTo EvalError.OfStage := by
  refine runStages_within (fun stage hstage path hpath name hname => ?_) document
  exact ⟨path, List.mem_flatMap.2 ⟨stage, hstage, hpath⟩, hname⟩

/-! ### A run has no value before it has asked for all of that -/

/-- A path cannot be followed before some name in `P` has been asked for, or not at all. -/
def Path.Awaits (P : String → Prop) (path : Path) : Prop :=
  (∃ name, P name ∧ path.RefersTo name) ∨ path.Misuses

theorem Path.locate_passes {path : Path} (h : path.Awaits P) (input : Value) :
    (path.locate Inquiry.lookup input).Passes P := by
  unfold Path.locate
  rcases h with ⟨name, hname, href⟩ | hmisuse
  · obtain ⟨rest, hs⟩ := refersTo_iff.1 href
    rw [hs]
    exact Or.inl hname
  · rw [misuses_iff.1 hmisuse]
    exact trivial

theorem Argument.evaluate_passes {a : Argument} {path : Path} (hpath : path ∈ a.path?)
    (h : path.Awaits P) (input : Value) : (a.evaluate Inquiry.lookup input).Passes P := by
  cases a with
  | literal l => cases hpath
  | path p =>
    cases hpath
    exact (Path.locate_passes h input).bind _

theorem Stage.run_passes {stage : Stage} {path : Path} (hpath : path ∈ stage.paths)
    (h : path.Awaits P) (input : Value) : (stage.run Inquiry.lookup input).Passes P := by
  unfold Stage.run
  cases hp : stage.target with
  | error e => exact trivial
  | ok p =>
    rcases (mem_paths hp).1 hpath with rfl | ⟨right, hr, hright⟩
    · exact Inquiry.Passes.of_bind _ fun _ => (Path.locate_passes h input).bind _
    · refine Inquiry.Passes.bind ?_ _
      unfold Stage.literal?
      rw [hr]
      exact (Argument.evaluate_passes hright h input).bind _

theorem runStages_passes {stages : List Stage} {stage : Stage} (hstage : stage ∈ stages)
    {path : Path} (hpath : path ∈ stage.paths) (h : path.Awaits P) (input : Value) :
    (runStages Inquiry.lookup stages input).Passes P := by
  induction stages generalizing input with
  | nil => cases hstage
  | cons first rest ih =>
    rcases List.mem_cons.1 hstage with rfl | hrest
    · exact (Stage.run_passes hpath h input).bind _
    · exact Inquiry.Passes.of_bind _ fun v => ih hrest v

/-- A run of a pipeline has no value before every path in it has been located. -/
theorem Pipeline.run_passes {p : Pipeline} {path : Path} (hpath : path ∈ p.paths)
    (h : path.Awaits P) (document : Value) : (p.run Inquiry.lookup document).Passes P := by
  obtain ⟨stage, hstage, hin⟩ := List.mem_flatMap.1 hpath
  exact runStages_passes hstage hin h document

end

end DocMatch
