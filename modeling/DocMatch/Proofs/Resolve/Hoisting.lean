import DocMatch.Proofs.Resolve.History
import DocMatch.Proofs.Result

/-!
Hoisting. The first stages of a matcher can be declared under a new name, which the matcher then
refers to in their place. Every result stays the same, except that the new name is told in a cycle
that passes through the first stages.

    m = matchers.x | q        m ──▶ x ──▶ m             the cycle m, x, m
    x = matchers.m

    a = matchers.x            m ──▶ a ──▶ x ──▶ m       the cycle m, a, x, m
    m = matchers.a | q
    x = matchers.m

Wherever the new name is in a chain, the matcher is in it too. So a chain of the new file is one of
the old file, with the new name put in, and the same names close a cycle in both.
-/

namespace DocMatch

/-- A chain without a name. -/
def chainWithout (name : String) (chain : List String) : List String := chain.filter (· != name)

/-- An error in which a cycle does not tell a name. -/
def EvalError.without (name : String) : EvalError → EvalError
  | .cycle chain => .cycle (chainWithout name chain)
  | e => e

/-- The stage that takes the value of a matcher as it is. -/
def Stage.alias (name : String) : Stage :=
  ⟨.filter, .path [.key referenceWord, .key name], none⟩

namespace Matchers

/-- The file in which the first stages of a matcher are declared under a new name, and the rest of
them comes after a reference to it. -/
def hoist (matchers : Matchers) (name new : String) (first : Pipeline) (rest : List Stage) :
    Matchers :=
  Fields.put new first (Fields.put name ⟨Stage.alias new, rest⟩ matchers)

end Matchers

section

variable {name new x : String} {chain : List String}

theorem mem_chainWithout (hx : x ≠ new) : x ∈ chainWithout new chain ↔ x ∈ chain := by
  simp [chainWithout, hx]

theorem chainWithout_concat (hx : x ≠ new) :
    chainWithout new (chain ++ [x]) = chainWithout new chain ++ [x] := by
  simp [chainWithout, hx]

theorem chainWithout_concat_self : chainWithout new (chain ++ [new]) = chainWithout new chain := by
  simp [chainWithout]

theorem EvalError.without_of_ofStage (e : EvalError) (he : e.OfStage) : e.without new = e := by
  cases e with
  | cycle chain => exact he.elim
  | leftArgumentNotPath | walk _ | unsupportedLiteral _ _ | reservedWord | unknownMatcher _
  | notImplemented _ => rfl

variable (g : String → Except EvalError Value)

/-- Stages after stages run on what those made. -/
theorem runStages_append (stages more : List Stage) (input : Value) :
    runStages g (stages ++ more) input = runStages g stages input >>= runStages g more := by
  induction stages generalizing input with
  | nil => rfl
  | cons stage rest ih =>
    rw [List.cons_append, runStages, runStages, bind_assoc]
    exact congrArg _ (funext ih)

/-- An alias has the value of the matcher that it refers to, whatever it is given. -/
theorem Stage.run_alias (input : Value) : (Stage.alias name).run g input = g name := by
  have hrun : (Stage.alias name).run g input = g name >>= fun v => Except.ok v := by
    show ((g name).map fun v => (v, [])) >>= _ = _
    cases g name with
    | ok v => rfl
    | error e => rfl
  exact hrun.trans (bind_pure _)

theorem Pipeline.run_append (first : Pipeline) (rest : List Stage) (document : Value) :
    (⟨first.first, first.rest ++ rest⟩ : Pipeline).run g document =
      runStages g first.stages document >>= runStages g rest :=
  runStages_append g first.stages rest document

theorem Pipeline.run_alias (rest : List Stage) (document : Value) :
    (⟨Stage.alias name, rest⟩ : Pipeline).run g document = g name >>= runStages g rest := by
  rw [← Stage.run_alias g document]
  rfl

end

/-- Two files the second of which declares the first stages of a matcher of the first under a new
name. -/
structure Hoisted (before after : Matchers) (name new : String) (first : Pipeline)
    (rest : List Stage) : Prop where
  whole : before.get? name = some ⟨first.first, first.rest ++ rest⟩
  undeclared : before.get? new = none
  unused : ∀ x, ¬ before.RefersTo x new
  named : after.get? name = some ⟨Stage.alias new, rest⟩
  hoisted : after.get? new = some first
  others : ∀ x, x ≠ name → x ≠ new → after.get? x = before.get? x

namespace Hoisted

variable {before after : Matchers} {name new : String} {first : Pipeline} {rest : List Stage}
  {document : Value} {chain : List String}

theorem ne (h : Hoisted before after name new first rest) : name ≠ new := by
  rintro rfl
  cases h.whole.symm.trans h.undeclared

/-- What any stage of a declared matcher refers to is not the new name. -/
theorem ne_new (h : Hoisted before after name new first rest) {x y : String} {p : Pipeline}
    (hp : before.get? x = some p) {stage : Stage} (hstage : stage ∈ p.stages) {path : Path}
    (hpath : path ∈ stage.paths) (href : path.RefersTo y) : y ≠ new := by
  rintro rfl
  exact h.unused x ⟨p, hp, path, List.mem_flatMap.2 ⟨stage, hstage, hpath⟩, href⟩

/-- A name other than the new one has the same value in a chain of the second file as without the
new name in a chain of the first, with an error that does not tell the new name. -/
def Agrees (before after : Matchers) (document : Value) (new : String) (chain : List String)
    (x : String) : Prop :=
  before.valueIn document (chainWithout new chain) x =
    (after.valueIn document chain x).mapError (EvalError.without new)

/-- Stages of a declared matcher run alike over names that agree. -/
theorem runStages_agree (h : Hoisted before after name new first rest)
    (hagree : ∀ y, y ≠ new → Agrees before after document new chain y) {x : String} {p : Pipeline}
    (hp : before.get? x = some p) {stages : List Stage} (hstages : stages ⊆ p.stages)
    (input : Value) :
    runStages (before.valueIn document (chainWithout new chain)) stages input =
      (runStages (after.valueIn document chain) stages input).mapError (EvalError.without new) := by
  refine runStages_mapError (fun e => e.without_of_ofStage) ?_ input
  intro stage hstage path hpath y href
  exact hagree y (h.ne_new hp (hstages hstage) hpath href)

/-- A name that is in the chain closes the same cycle. -/
theorem agrees_of_mem {x : String} (hx : x ≠ new) (hc : x ∈ chain) :
    Agrees before after document new chain x := by
  unfold Agrees
  rw [Matchers.valueIn_of_mem hc, Matchers.valueIn_of_mem ((mem_chainWithout hx).2 hc),
    ← chainWithout_concat hx]
  rfl

/-- A name that both files treat alike agrees, if all that it refers to agrees in the chain that it
joins. -/
theorem agrees_other (h : Hoisted before after name new first rest) {x : String} (hx : x ≠ new)
    (hname : x ≠ name) (hc : x ∉ chain) (hagree : ∀ p, after.get? x = some p →
      ∀ y, y ≠ new → Agrees before after document new (chain ++ [x]) y) :
    Agrees before after document new chain x := by
  have hc' : x ∉ chainWithout new chain := fun hmem => hc ((mem_chainWithout hx).1 hmem)
  have hsame : after.get? x = before.get? x := h.others x hname hx
  unfold Agrees
  cases hp : before.get? x with
  | none =>
    rw [Matchers.valueIn_of_unknown hc' hp, Matchers.valueIn_of_unknown hc (hsame.trans hp)]
    rfl
  | some p =>
    rw [Matchers.valueIn_of_declared hc' hp, Matchers.valueIn_of_declared hc (hsame.trans hp),
      ← chainWithout_concat hx]
    exact h.runStages_agree (hagree p (hsame.trans hp)) hp (List.Subset.refl _) document

/-- In a chain that the new name has not joined, its value is what the first stages make. -/
theorem valueIn_new (h : Hoisted before after name new first rest) (hnew : new ∉ chain)
    (hagree : ∀ y, y ≠ new → Agrees before after document new (chain ++ [new]) y) :
    runStages (before.valueIn document (chainWithout new chain)) first.stages document =
      (after.valueIn document chain new).mapError (EvalError.without new) := by
  have hfirst : first.stages ⊆ (⟨first.first, first.rest ++ rest⟩ : Pipeline).stages :=
    List.cons_subset_cons _ (List.subset_append_left _ _)
  rw [Matchers.valueIn_of_declared hnew h.hoisted, ← chainWithout_concat_self]
  exact h.runStages_agree hagree h.whole hfirst document

/-- The matcher whose first stages were hoisted agrees, if in the chain that it joins the new name
has the value of these stages and all other names agree. -/
theorem agrees_name (h : Hoisted before after name new first rest) (hc : name ∉ chain)
    (hagree : ∀ y, y ≠ new → Agrees before after document new (chain ++ [name]) y)
    (hnew : runStages (before.valueIn document (chainWithout new (chain ++ [name]))) first.stages
      document = (after.valueIn document (chain ++ [name]) new).mapError (EvalError.without new)) :
    Agrees before after document new chain name := by
  have hrest : rest ⊆ (⟨first.first, first.rest ++ rest⟩ : Pipeline).stages :=
    List.subset_cons_of_subset _ (List.subset_append_right _ _)
  have hc' : name ∉ chainWithout new chain := fun hmem => hc ((mem_chainWithout h.ne).1 hmem)
  unfold Agrees
  rw [Matchers.valueIn_of_declared hc' h.whole, Matchers.valueIn_of_declared hc h.named,
    ← chainWithout_concat h.ne]
  -- both run the first stages, under either name, and then the rest
  rw [Pipeline.run_append, Pipeline.run_alias, mapError_bind, hnew]
  exact congrArg _ (funext fun v => h.runStages_agree hagree h.whole hrest v)

/-- In every chain in which the new name does not stand without the matcher, all other names agree,
and the new name has the value of the first stages once the matcher is there. -/
theorem agrees (h : Hoisted before after name new first rest) (hchain : new ∈ chain → name ∈ chain) :
    (∀ x, x ≠ new → Agrees before after document new chain x) ∧
      (name ∈ chain → new ∉ chain →
        runStages (before.valueIn document (chainWithout new chain)) first.stages document =
          (after.valueIn document chain new).mapError (EvalError.without new)) := by
  induction chain using Matchers.chain_induction after with
  | step chain ih =>
    constructor
    · intro x hx
      by_cases hc : x ∈ chain
      · exact agrees_of_mem hx hc
      by_cases hname : x = name
      · subst hname
        have hnew : new ∉ chain ++ [x] := by
          simpa [h.ne.symm] using fun hn => hc (hchain hn)
        obtain ⟨hagree, hvalue⟩ := ih x _ h.named hc fun _ => by simp
        exact h.agrees_name hc hagree (hvalue (by simp) hnew)
      · have hjoin : new ∈ chain ++ [x] → name ∈ chain ++ [x] := by
          simpa [Ne.symm hx] using fun hn => Or.inl (hchain hn)
        exact h.agrees_other hx hname hc fun p hp => (ih x p hp hc hjoin).1
    · intro hname hnew
      obtain ⟨hagree, _⟩ := ih new first h.hoisted hnew fun _ => by simp [hname]
      exact h.valueIn_new hnew hagree

end Hoisted

namespace Matchers

variable {matchers after : Matchers} {name new : String} {first : Pipeline} {rest : List Stage}

theorem hoist_get?_new : (matchers.hoist name new first rest).get? new = some first :=
  Fields.get?_put_self ..

theorem hoist_get?_name (h : name ≠ new) :
    (matchers.hoist name new first rest).get? name = some ⟨Stage.alias new, rest⟩ := by
  rw [hoist, Fields.get?_put_of_ne h.symm, Fields.get?_put_self]

theorem hoist_get?_of_ne {x : String} (hname : x ≠ name) (hnew : x ≠ new) :
    (matchers.hoist name new first rest).get? x = matchers.get? x := by
  rw [hoist, Fields.get?_put_of_ne hnew.symm, Fields.get?_put_of_ne hname.symm]

/-- Hoisting changes no result. Take a file in which a matcher begins with some stages, and a name
that is neither declared nor referred to in it; and take a file that declares these stages under the
new name and the matcher as a reference to it with the other stages after that, wherever it declares
them. Then every other name has the same value in both files, or fails in both with the same error,
where a cycle in the second tells the new name besides. -/
theorem fresh_hoist (document : Value)
    (hwhole : matchers.get? name = some ⟨first.first, first.rest ++ rest⟩)
    (hnew : new ∉ matchers.names) (hunused : ∀ x, ¬ matchers.RefersTo x new)
    (hafter : ∀ x, after.get? x = (matchers.hoist name new first rest).get? x)
    {x : String} (hx : x ≠ new) :
    matchers.fresh document x = (after.fresh document x).mapError (EvalError.without new) := by
  have hne : name ≠ new := by
    rintro rfl
    exact hnew (Fields.mem_names_of_get? hwhole)
  have h : Hoisted matchers after name new first rest :=
    { whole := hwhole
      undeclared := Fields.get?_eq_none_iff.2 hnew
      unused := hunused
      named := (hafter name).trans (hoist_get?_name hne)
      hoisted := (hafter new).trans hoist_get?_new
      others := fun y hyn hy => (hafter y).trans (hoist_get?_of_ne hyn hy) }
  have hempty : new ∈ ([] : List String) → name ∈ ([] : List String) := nofun
  rw [fresh_eq_valueIn, fresh_eq_valueIn]
  exact (h.agrees hempty).1 x hx

/-- A matcher of two stages, and one that leads back to it. -/
def looped : Matchers :=
  [("m", ⟨⟨.filter, .path [.key referenceWord, .key "x"], none⟩,
      [⟨.filter, .path [.key "y"], none⟩]⟩),
    ("x", ⟨⟨.filter, .path [.key "y"], some (.path [.key referenceWord, .key "m"])⟩, []⟩)]

/-- The first stage of the matcher. -/
def loopedFirst : Pipeline := ⟨⟨.filter, .path [.key referenceWord, .key "x"], none⟩, []⟩

/-- The same file with this stage under a name of its own. -/
def loopedHoisted : Matchers :=
  looped.hoist "m" "a" loopedFirst [⟨.filter, .path [.key "y"], none⟩]

/-- The cycle from the other matcher tells the new name in the second file only. -/
theorem fresh_hoist_looped :
    loopedHoisted.fresh .null "x" = .error (.cycle ["x", "m", "a", "x"]) ∧
      looped.fresh .null "x" = .error (.cycle ["x", "m", "x"]) := by
  have hwhole : looped.get? "m" =
      some ⟨loopedFirst.first, loopedFirst.rest ++ [⟨.filter, .path [.key "y"], none⟩]⟩ := rfl
  have hunused : ∀ x, ¬ looped.RefersTo x "a" := by
    rintro x ⟨p, hp, href⟩
    have hall : ∀ entry ∈ looped, ¬ entry.2.RefersTo "a" := by decide
    exact hall _ (Fields.mem_of_get? hp) href
  have hafter : ∀ y, loopedHoisted.get? y =
      (looped.hoist "m" "a" loopedFirst [⟨.filter, .path [.key "y"], none⟩]).get? y := fun _ => rfl
  have hcycle : loopedHoisted.fresh .null "x" = .error (.cycle ["x", "m", "a", "x"]) := by cbv
  have hsame : looped.fresh .null "x" =
      (loopedHoisted.fresh .null "x").mapError (EvalError.without "a") :=
    fresh_hoist .null hwhole (by decide) hunused hafter (by decide)
  rw [hcycle] at hsame
  exact ⟨hcycle, hsame⟩

end Matchers

end DocMatch
