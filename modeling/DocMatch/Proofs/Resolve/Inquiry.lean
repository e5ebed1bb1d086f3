import DocMatch.Proofs.Resolve.References
import DocMatch.Resolve.Session

/-!
Runs laid open. Stages run over any effect that can fail, so they also run over the effect of
asking: there a run is a tree that stops at each reference, and has a branch for each value that the
matcher might turn out to have.

    matchers.a.x == matchers.b        ask b ─ v ─▶ ask a ─ w ─▶ end, with what w and v make
                                                                or with an error of the stage

A run over any other effect is this tree, played through with the answers of a lookup. What a run
asks, and what it makes of the answers, is thus a matter of the tree alone.
-/

namespace DocMatch

/-- A run that has ended, or that has come to a reference and goes on with the value found there. -/
inductive Inquiry (α : Type)
  | ended (r : Except EvalError α)
  | ask (name : String) (next : Value → Inquiry α)

namespace Inquiry

variable {α β : Type}

/-- Goes on with the value of a run, unless it ends with an error. -/
protected def bind : Inquiry α → (α → Inquiry β) → Inquiry β
  | ended (.ok a), f => f a
  | ended (.error e), _ => ended (.error e)
  | ask name next, f => ask name fun v => (next v).bind f

/-- Goes on with the error of a run, unless it ends with a value. -/
protected def tryCatch : Inquiry α → (EvalError → Inquiry α) → Inquiry α
  | ended (.ok a), _ => ended (.ok a)
  | ended (.error e), handle => handle e
  | ask name next, handle => ask name fun v => (next v).tryCatch handle

instance : Monad Inquiry where
  pure a := ended (.ok a)
  bind := Inquiry.bind

instance : MonadExceptOf EvalError Inquiry where
  throw e := ended (.error e)
  tryCatch := Inquiry.tryCatch

/-- The lookup that asks. -/
def lookup (name : String) : Inquiry Value := ask name pure

/-- Plays a run through with the answers of a lookup. -/
def answer {m : Type → Type} [Monad m] [MonadExceptOf EvalError m] (lookup : String → m Value) :
    Inquiry α → m α
  | ended (.ok a) => pure a
  | ended (.error e) => throw e
  | ask name next => do (next (← lookup name)).answer lookup

end Inquiry

/-- Effects in which nothing is done after an error. -/
class Aborting (m : Type → Type) [Monad m] [MonadExceptOf EvalError m] : Prop
    extends LawfulMonad m where
  throw_bind {α β : Type} (e : EvalError) (f : α → m β) : (throw e : m α) >>= f = throw e

instance : Aborting (Except EvalError) where
  throw_bind _ _ := rfl

instance : Aborting Resolving where
  throw_bind _ _ := rfl

/-! ### A run is its tree, played through -/

section

variable {m : Type → Type} [Monad m] [MonadExceptOf EvalError m] {α β : Type}

namespace Inquiry

variable [Aborting m]

theorem answer_lookup (g : String → m Value) (name : String) : (lookup name).answer g = g name :=
  bind_pure (g name)

/-- Playing through keeps the order of what is done. -/
theorem answer_bind (g : String → m Value) (t : Inquiry α) (f : α → Inquiry β) :
    (t >>= f).answer g = t.answer g >>= fun a => (f a).answer g := by
  induction t with
  | ended r =>
    cases r with
    | ok a => exact (pure_bind a fun a => (f a).answer g).symm
    | error e => exact (Aborting.throw_bind e _).symm
  | ask name next ih =>
    show (g name >>= fun v => (next v >>= f).answer g) =
      (g name >>= fun v => (next v).answer g) >>= fun a => (f a).answer g
    rw [bind_assoc]
    exact congrArg (g name >>= ·) (funext ih)

end Inquiry

variable [Aborting m]

omit [Aborting m] in
theorem EvalError.ofWalk_eq_answer (g : String → m Value) (r : Except WalkError Value) :
    (ofWalk r : m Value) = (ofWalk r : Inquiry Value).answer g := by
  cases r with
  | ok v => rfl
  | error e => rfl

theorem Path.locate_eq_answer (g : String → m Value) (input : Value) (path : Path) :
    path.locate g input = (path.locate Inquiry.lookup input).answer g := by
  unfold Path.locate
  cases path.source with
  | input rest => rfl
  | matcher name rest =>
    simp only [Inquiry.answer_bind, Inquiry.answer_lookup]
    rfl
  | reserved => rfl

theorem Argument.evaluate_eq_answer (g : String → m Value) (input : Value) (a : Argument) :
    a.evaluate g input = (a.evaluate Inquiry.lookup input).answer g := by
  cases a with
  | literal l => rfl
  | path p =>
    simp only [Argument.evaluate, Inquiry.answer_bind, ← Path.locate_eq_answer,
      ← EvalError.ofWalk_eq_answer]
    refine congrArg _ (funext fun located => congrArg _ (funext fun found => ?_))
    cases found.toLiteral? with
    | none => rfl
    | some l => rfl

theorem Stage.literal?_eq_answer (g : String → m Value) (stage : Stage) (input : Value) :
    stage.literal? g input = (stage.literal? Inquiry.lookup input).answer g := by
  unfold Stage.literal?
  cases stage.right with
  | none => rfl
  | some right =>
    simp only [Inquiry.answer_bind, ← Argument.evaluate_eq_answer]
    rfl

theorem Stage.run_eq_answer (g : String → m Value) (stage : Stage) (input : Value) :
    stage.run g input = (stage.run Inquiry.lookup input).answer g := by
  unfold Stage.run
  cases stage.target with
  | error e => rfl
  | ok p =>
    simp only [Inquiry.answer_bind, ← Stage.literal?_eq_answer, ← Path.locate_eq_answer,
      ← EvalError.ofWalk_eq_answer]

theorem runStages_eq_answer (g : String → m Value) (stages : List Stage) (input : Value) :
    runStages g stages input = (runStages Inquiry.lookup stages input).answer g := by
  induction stages generalizing input with
  | nil => rfl
  | cons stage rest ih =>
    rw [runStages, runStages, Inquiry.answer_bind, ← Stage.run_eq_answer]
    exact congrArg _ (funext ih)

/-- A run of a pipeline is its tree, played through. -/
theorem Pipeline.run_eq_answer (g : String → m Value) (p : Pipeline) (document : Value) :
    p.run g document = (p.run Inquiry.lookup document).answer g :=
  runStages_eq_answer g p.stages document

end

end DocMatch
