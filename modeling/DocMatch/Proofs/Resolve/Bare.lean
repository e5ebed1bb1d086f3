import DocMatch.Proofs.Resolve.Hoisting
import DocMatch.Proofs.Value.Branch

/-!
Bare paths. A stage that is a path alone selects what the path leads to: a scalar as it is, and else
the branch along all steps but the last. A bare reference has the value of the matcher, so a path
that goes on from a reference can be taken apart: the reference in a stage of its own, and the rest
of the path after the pipe.

    routes.0.dev                           "br"
    routes.0.via                           {routes: [{dev: "br", via: […]}]}
    matchers.gw.routes.dev == "br"         as   matchers.gw | routes.dev == "br"

A last step that leads nowhere is no fault of a bare path, since the branch ends before it. And what
comes after the pipe has to begin by another word than the reserved one: there it would be a
reference, where it was a field of the value before.
-/

namespace DocMatch

section

variable {m : Type → Type} [Monad m] [LawfulMonad m] [MonadExceptOf EvalError m]

/-- A stage with a literal on its right, or with nothing there, follows its path and applies its
operator where that leads. -/
theorem Stage.run_path {operator : Operator} (hop : operator ≠ .merge) (lookup : String → m Value)
    (path : Path) (l? : Option Literal) (input : Value) :
    (⟨operator, .path path, l?.map .literal⟩ : Stage).run lookup input =
      path.locate lookup input >>= fun located =>
        EvalError.ofWalk (operator.apply l? located.1 located.2) := by
  have htarget : (⟨operator, .path path, l?.map .literal⟩ : Stage).target = .ok path := by
    cases operator with
    | merge => exact absurd rfl hop
    | filter => rfl
    | replace => rfl
  have hliteral : (⟨operator, .path path, l?.map .literal⟩ : Stage).literal? lookup input =
      pure l? := by
    cases l? with
    | none => rfl
    | some l => simp [literal?, Argument.evaluate]
  rw [run, htarget, hliteral]
  exact pure_bind _ _

end

/-! ### What a bare path selects -/

namespace Value

variable {v w : Value} {path : Path}

/-- A bare path to a scalar selects that scalar. -/
theorem select_of_scalar (h : v.navigate path = .ok w) (hw : w.isScalar = true) :
    v.select path none = .ok w := by
  unfold select
  rw [h]
  exact if_pos hw

/-- A bare path to anything else, or to nothing, keeps the branch along all steps but the last. -/
theorem select_of_not_scalar {last : Step}
    (h : ∀ u, v.navigate (path ++ [last]) = .ok u → u.isScalar = false) :
    v.select (path ++ [last]) none = (v.navigate path).map (wrapAll path) := by
  have hfilter : v.filter (path ++ [last]) none = (v.navigate path).map (wrapAll path) := by
    rw [filter, walk_concat]
    cases v.navigate path <;> rfl
  rw [← hfilter]
  unfold select
  cases hu : v.navigate (path ++ [last]) with
  | error e => rfl
  | ok u => simp [h u hu]

end Value

theorem Resolving.ofWalk_apply (r : Except WalkError Value) (session : Session) :
    (EvalError.ofWalk r : Resolving Value) session = (r.mapError .walk, session) := by
  cases r with
  | ok v => rfl
  | error e => rfl

/-- A bare path selects from the value that it is followed on, which is the input of the stage or
the value of a matcher. A path with no steps left selects the value itself, and one to a scalar that
scalar. Any other path fails only if its steps up to the last cannot be followed, with the error of
these; and else it selects the branch along them, where all that comes after these steps is as it
was and nothing stands beside them. The session is left as following the reference left it. -/
theorem Stage.run_bare {lookup : String → Resolving Value} {input source : Value}
    {path rest : Path} {session after : Session}
    (hlocate : path.locate lookup input session = (.ok (source, rest), after)) :
    let outcome := (⟨.filter, .path path, none⟩ : Stage).run lookup input session
    (rest = [] → outcome = (.ok source, after)) ∧
    ∀ above last, rest = above ++ [last] →
      (∀ found, source.navigate rest = .ok found → found.isScalar = true →
        outcome = (.ok found, after)) ∧
      ((∀ found, source.navigate rest = .ok found → found.isScalar = false) →
        (∀ e, source.navigate above = .error e → outcome = (.error (.walk e), after)) ∧
        ∀ w, source.navigate above = .ok w →
          ∃ branch, outcome = (.ok branch, after) ∧ source.IsBranch above branch) := by
  intro outcome
  have hrun : (⟨.filter, .path path, none⟩ : Stage).run lookup input =
      path.locate lookup input >>= fun located =>
        EvalError.ofWalk (Operator.filter.apply none located.1 located.2) :=
    Stage.run_path (by decide) lookup path none input
  have houtcome : outcome = ((Operator.filter.apply none source rest).mapError .walk, after) := by
    show (⟨.filter, .path path, none⟩ : Stage).run lookup input session = _
    rw [hrun, Resolving.bind_apply, hlocate]
    exact Resolving.ofWalk_apply _ after
  refine ⟨?_, ?_⟩
  · rintro rfl
    rw [houtcome]
    rfl
  · rintro above last rfl
    have happly : Operator.filter.apply none source (above ++ [last]) =
        source.select (above ++ [last]) none := by
      rw [Operator.apply, if_neg (by simp)]
      exact if_neg (by decide)
    rw [happly] at houtcome
    refine ⟨fun found hfound hscalar => ?_, fun hnone => ?_⟩
    · rw [houtcome, Value.select_of_scalar hfound hscalar]
      rfl
    · rw [Value.select_of_not_scalar hnone] at houtcome
      refine ⟨fun e he => ?_, fun w hw => ?_⟩
      · rw [houtcome, he]
        rfl
      · rw [hw] at houtcome
        exact ⟨_, houtcome, Value.isBranch_wrapAll hw⟩

/-- Routes, and a matcher that takes the document as it is. -/
def routes : Value :=
  .mapping [("routes", .sequence [.null, .mapping [("dev", .string "br"), ("via", .sequence [])]]),
    ("interfaces", .null)]

def gateways : Matchers := [("gw", ⟨⟨.filter, .path [.key "routes"], none⟩, []⟩)]

/-- The last step leads nowhere, and what is before it is kept alone. -/
theorem Stage.run_bare_missing :
    let path : Path := [.key referenceWord, .key "gw", .key "routes", .index 1, .key "table"]
    ∃ branch after, (⟨.filter, .path path, none⟩ : Stage).run (gateways.resolveIn routes []) .null
        Session.empty = (.ok branch, after) ∧
      routes.IsBranch [.key "routes", .index 1] branch ∧
      branch.navigate [.key "routes", .index 0, .key "dev"] = .ok (.string "br") := by
  intro path
  have hlocate : path.locate (gateways.resolveIn routes []) .null Session.empty =
      (.ok (routes, [.key "routes", .index 1, .key "table"]),
        ⟨[("gw", routes)], [.resolved "gw", .started "gw"]⟩) := by cbv
  have hmissing : routes.navigate [.key "routes", .index 1, .key "table"] =
      .error (.notFound "table") := rfl
  have hbare := (Stage.run_bare hlocate).2 [.key "routes", .index 1] (.key "table") rfl
  obtain ⟨_, hbranch⟩ := hbare.2 fun found hfound => by simp [hmissing] at hfound
  obtain ⟨branch, hrun, his⟩ := hbranch _ rfl
  exact ⟨branch, _, hrun, his, his.same [.key "dev"]⟩

/-! ### Paths that go on from a reference -/

/-- Stages, and the same with some of them taken apart: those that filter or replace along a path
that goes on from a reference, with a literal on the right or nothing there. -/
inductive Piped : List Stage → List Stage → Prop
  | nil : Piped [] []
  | same (stage : Stage) {stages piped : List Stage} (h : Piped stages piped) :
    Piped (stage :: stages) (stage :: piped)
  | apart {operator : Operator} (hop : operator ≠ .merge) (name : String) {step : Step}
    (hstep : step ≠ .key referenceWord) (path : Path) (l? : Option Literal)
    {stages piped : List Stage} (h : Piped stages piped) :
    Piped
      (⟨operator, .path (.key referenceWord :: .key name :: step :: path), l?.map .literal⟩ ::
        stages)
      (Stage.alias name :: ⟨operator, .path (step :: path), l?.map .literal⟩ :: piped)

/-- Two files that declare the same names, where stages are taken apart in the second. -/
def Matchers.Piped (matchers after : Matchers) : Prop :=
  List.Forall₂ (fun entry entry' => entry.1 = entry'.1 ∧
    DocMatch.Piped entry.2.stages entry'.2.stages) matchers after

section

variable (g : String → Except EvalError Value)

/-- A stage that goes on from a reference makes the same as the reference and then the rest. -/
theorem Stage.run_apart {operator : Operator} (hop : operator ≠ .merge) (name : String)
    {step : Step} (hstep : step ≠ .key referenceWord) (path : Path) (l? : Option Literal)
    (input : Value) :
    (⟨operator, .path (.key referenceWord :: .key name :: step :: path), l?.map .literal⟩ :
        Stage).run g input =
      (Stage.alias name).run g input >>=
        (⟨operator, .path (step :: path), l?.map .literal⟩ : Stage).run g := by
  have hjoined : (Path.locate g input (.key referenceWord :: .key name :: step :: path)) =
      g name >>= fun v => pure (v, step :: path) := rfl
  have hrest : ∀ v, Path.locate g v (step :: path) = pure (v, step :: path) := by
    intro v
    have hsource : Path.source (step :: path) = .input (step :: path) := if_neg hstep
    rw [Path.locate, hsource]
  rw [Stage.run_path hop, Stage.run_alias, hjoined, bind_assoc]
  refine congrArg _ (funext fun v => ?_)
  rw [Stage.run_path hop, hrest]

theorem runStages_piped {stages piped : List Stage} (h : Piped stages piped) (input : Value) :
    runStages g piped input = runStages g stages input := by
  induction h generalizing input with
  | nil => rfl
  | same stage _ ih =>
    rw [runStages, runStages]
    exact congrArg _ (funext ih)
  | apart hop name hstep path l? _ ih =>
    rw [runStages, runStages, Stage.run_apart g hop name hstep path l? input, bind_assoc]
    refine congrArg _ (funext fun v => ?_)
    rw [runStages]
    exact congrArg _ (funext ih)

end

namespace Matchers

variable {matchers after : Matchers}

/-- A name has a pipeline in both files, and the one is the other taken apart, or it has none. -/
theorem Piped.get?_rel (h : matchers.Piped after) (name : String) :
    Option.Rel (fun p q => DocMatch.Piped p.stages q.stages) (matchers.get? name)
      (after.get? name) := by
  induction h with
  | nil => exact .none
  | @cons entry entry' rest rest' hentry _ ih =>
    obtain ⟨hname, hstages⟩ := hentry
    by_cases hkey : entry.1 = name
    · rw [Fields.get?, Fields.get?, if_pos hkey, if_pos (hname ▸ hkey)]
      exact .some hstages
    · rw [Fields.get?, Fields.get?, if_neg hkey, if_neg (hname ▸ hkey)]
      exact ih

/-- In every chain a name has the same value in both files. -/
theorem valueIn_eq_of_piped (h : matchers.Piped after) (document : Value) (chain : List String)
    (name : String) : after.valueIn document chain name = matchers.valueIn document chain name := by
  induction chain using chain_induction matchers generalizing name with
  | step chain ih =>
    by_cases hc : name ∈ chain
    · rw [valueIn_of_mem hc, valueIn_of_mem hc]
    · have hname := h.get?_rel name
      cases hp : matchers.get? name with
      | none =>
        cases hq : after.get? name with
        | none => rw [valueIn_of_unknown hc hp, valueIn_of_unknown hc hq]
        | some q =>
          rw [hp, hq] at hname
          cases hname
      | some p =>
        cases hq : after.get? name with
        | none =>
          rw [hp, hq] at hname
          cases hname
        | some q =>
          rw [hp, hq] at hname
          cases hname with
          | some hstages =>
            rw [valueIn_of_declared hc hp, valueIn_of_declared hc hq]
            have hlookup : after.valueIn document (chain ++ [name]) =
                matchers.valueIn document (chain ++ [name]) := funext (ih name p hp hc)
            rw [hlookup]
            exact runStages_piped _ hstages document

/-- Taking stages apart changes no result. Wherever a stage filters or replaces along a path that
goes on from a reference, with a literal or with nothing on its right, the reference can be put in a
stage of its own, with the rest of the path in the next, if that does not begin by the reserved
word: every name has the same value as before, or fails with the same error. -/
theorem fresh_eq_of_piped (h : matchers.Piped after) (document : Value) (name : String) :
    after.fresh document name = matchers.fresh document name := by
  rw [fresh_eq_valueIn, fresh_eq_valueIn]
  exact valueIn_eq_of_piped h document [] name

/-- A matcher whose second stage goes on from a reference, and two whose first stages do and that
refer to each other. -/
def joined : Matchers :=
  [("gw", ⟨⟨.filter, .path [.key "routes"], none⟩, []⟩),
    ("dev", ⟨⟨.filter, .path [.key "interfaces"], none⟩,
      [⟨.filter, .path [.key referenceWord, .key "gw", .key "routes", .index 1, .key "dev"],
        none⟩]⟩),
    ("a", ⟨⟨.replace, .path [.key referenceWord, .key "b", .key "x"],
      some (.literal (.string "y"))⟩, []⟩),
    ("b", ⟨⟨.filter, .path [.key referenceWord, .key "a", .key "x"], none⟩, []⟩)]

/-- The same with the references in stages of their own. -/
def apart : Matchers :=
  [("gw", ⟨⟨.filter, .path [.key "routes"], none⟩, []⟩),
    ("dev", ⟨⟨.filter, .path [.key "interfaces"], none⟩,
      [Stage.alias "gw", ⟨.filter, .path [.key "routes", .index 1, .key "dev"], none⟩]⟩),
    ("a", ⟨Stage.alias "b", [⟨.replace, .path [.key "x"], some (.literal (.string "y"))⟩]⟩),
    ("b", ⟨Stage.alias "a", [⟨.filter, .path [.key "x"], none⟩]⟩)]

/-- A value and a cycle that are the same in both files. -/
theorem fresh_eq_of_piped_apart :
    joined.Piped apart ∧
    apart.fresh routes "dev" = .ok (.string "br") ∧
    apart.fresh routes "a" = .error (.cycle ["a", "b", "a"]) := by
  have hpiped : joined.Piped apart := by
    refine .cons ⟨rfl, .same _ .nil⟩ (.cons ⟨rfl, .same _ ?_⟩ (.cons ⟨rfl, ?_⟩
      (.cons ⟨rfl, ?_⟩ .nil)))
    · exact .apart (by decide) "gw" (by decide) _ none .nil
    · exact .apart (by decide) "b" (by decide) _ (some (.string "y")) .nil
    · exact .apart (by decide) "a" (by decide) _ none .nil
  have hdev : joined.fresh routes "dev" = .ok (.string "br") := by cbv
  have ha : joined.fresh routes "a" = .error (.cycle ["a", "b", "a"]) := by cbv
  exact ⟨hpiped, (fresh_eq_of_piped hpiped routes "dev").trans hdev,
    (fresh_eq_of_piped hpiped routes "a").trans ha⟩

end Matchers

end DocMatch
