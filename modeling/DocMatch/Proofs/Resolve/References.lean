import DocMatch.Resolve.Stage

/-!
References. A path that starts with the word `matchers` and a name refers to the matcher of that
name; one where no name follows the word misuses it. The matchers of a file are the nodes of a graph
whose edges are the references in their stages.

    a = matchers.b.x == "1" | y        a ──▶ b
    b = z == matchers.c                b ──▶ c
    c = matchers.0                     c misuses the word
-/

namespace DocMatch

namespace Path

/-- A path refers to a matcher: the reserved word and the name of the matcher come first. -/
def RefersTo (path : Path) (name : String) : Prop := [.key referenceWord, .key name] <+: path

/-- A path misuses the reserved word: it comes first and no name comes second. -/
def Misuses (path : Path) : Prop :=
  [.key referenceWord] <+: path ∧ ∀ name, ¬ path.RefersTo name

instance (path : Path) (name : String) : Decidable (path.RefersTo name) :=
  inferInstanceAs (Decidable (_ <+: path))

/-- A path refers to a matcher, or misuses the reserved word, or is followed on the input. -/
theorem source_cases (path : Path) :
    (∃ name rest, path = .key referenceWord :: .key name :: rest ∧
      path.source = .matcher name rest) ∨
    (path.Misuses ∧ path.source = .reserved) ∨
    (¬ [.key referenceWord] <+: path ∧ path.source = .input path) := by
  cases path with
  | nil => exact Or.inr (Or.inr ⟨by simp, rfl⟩)
  | cons step path =>
    by_cases hstep : step = .key referenceWord
    · subst hstep
      match path with
      | [] => exact Or.inr (Or.inl ⟨⟨⟨[], rfl⟩, by simp [RefersTo]⟩, rfl⟩)
      | .index i :: rest =>
        exact Or.inr (Or.inl ⟨⟨⟨.index i :: rest, rfl⟩, by simp [RefersTo]⟩, rfl⟩)
      | .key name :: rest => exact Or.inl ⟨name, rest, rfl, rfl⟩
    · refine Or.inr (Or.inr ⟨?_, if_neg hstep⟩)
      rintro ⟨rest, hrest⟩
      exact hstep (List.cons.inj hrest).1.symm

/-- Following a path asks for the matcher that it refers to. -/
theorem refersTo_iff {path : Path} {name : String} :
    path.RefersTo name ↔ ∃ rest, path.source = .matcher name rest := by
  constructor
  · rintro ⟨rest, rfl⟩
    exact ⟨rest, rfl⟩
  · rintro ⟨rest, h⟩
    rcases source_cases path with ⟨other, tail, rfl, hs⟩ | ⟨_, hs⟩ | ⟨_, hs⟩
    · rw [hs] at h
      cases h
      exact ⟨rest, rfl⟩
    · rw [hs] at h
      cases h
    · rw [hs] at h
      cases h

/-- A path that misuses the reserved word is the one that cannot be followed. -/
theorem misuses_iff {path : Path} : path.Misuses ↔ path.source = .reserved := by
  rcases source_cases path with ⟨name, rest, rfl, hs⟩ | ⟨hm, hs⟩ | ⟨hno, hs⟩
  · rw [hs]
    refine ⟨fun h => absurd ⟨rest, rfl⟩ (h.2 name), fun h => by cases h⟩
  · exact ⟨fun _ => hs, fun _ => hm⟩
  · rw [hs]
    refine ⟨fun h => absurd h.1 hno, fun h => by cases h⟩

/-- The name that a path refers to, if it refers to one. -/
def reference? (path : Path) : Option String :=
  match path.source with
  | .matcher name _ => some name
  | _ => none

theorem reference?_eq_some_iff {path : Path} {name : String} :
    path.reference? = some name ↔ path.RefersTo name := by
  rw [refersTo_iff]
  unfold reference?
  cases path.source with
  | input rest => simp
  | matcher other rest => simp
  | reserved => simp

end Path

/-- The path of an argument that is one. -/
def Argument.path? : Argument → Option Path
  | .path p => some p
  | .literal _ => none

/-- The paths of a stage, on the left and on the right. -/
def Stage.paths (stage : Stage) : List Path := stage.arguments.filterMap Argument.path?

namespace Pipeline

/-- The paths of all stages. -/
def paths (p : Pipeline) : List Path := p.stages.flatMap Stage.paths

/-- Some path of some stage refers to a matcher. -/
def RefersTo (p : Pipeline) (name : String) : Prop := ∃ path ∈ p.paths, path.RefersTo name

/-- Some path of some stage misuses the reserved word. -/
def Misuses (p : Pipeline) : Prop := ∃ path ∈ p.paths, path.Misuses

instance (p : Pipeline) (name : String) : Decidable (p.RefersTo name) :=
  inferInstanceAs (Decidable (∃ path ∈ p.paths, path.RefersTo name))

/-- The names that the paths of all stages refer to. -/
def references (p : Pipeline) : List String := p.paths.filterMap Path.reference?

theorem mem_references {p : Pipeline} {name : String} :
    name ∈ p.references ↔ p.RefersTo name := by
  unfold references RefersTo
  simp only [List.mem_filterMap, Path.reference?_eq_some_iff]

end Pipeline

namespace Matchers

/-- An edge of the reference graph: a declared matcher whose pipeline refers to another name. -/
def RefersTo (matchers : Matchers) (name other : String) : Prop :=
  ∃ p, matchers.get? name = some p ∧ p.RefersTo other

/-- A declared matcher whose pipeline misuses the reserved word. -/
def Misuses (matchers : Matchers) (name : String) : Prop :=
  ∃ p, matchers.get? name = some p ∧ p.Misuses

end Matchers

end DocMatch
