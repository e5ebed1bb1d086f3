import DocMatch.Proofs.Resolve.Memory

/-!
Sound sessions. At any moment a session has a chain of matchers that are being run, which its
journal tells; it is sound if what it remembers is grounded and apart from this chain. In a sound
session resolving gives the value in the chain, remembers it, forgets nothing, and leaves the
session sound for the same chain.

    sound for [x]                                       sound for [x]
      │ start a                                           ▲ finish a
      ▼                                                   │
    sound for [x, a]  ── the run of a, as its tree ──▶  sound for [x, a]
-/

namespace DocMatch

/-- The matchers whose runs a journal, latest entry first, tells to have started and not ended,
outermost first. -/
def openRuns : List Event → List String
  | [] => []
  | .started name :: earlier => openRuns earlier ++ [name]
  | .resolved _ :: earlier | .failed _ :: earlier => (openRuns earlier).dropLast

namespace Session

/-- The matchers that are being run, outermost first. -/
def inProgress (session : Session) : List String := openRuns session.journal

theorem inProgress_start (session : Session) (name : String) :
    (session.start name).inProgress = session.inProgress ++ [name] := rfl

theorem inProgress_finish (session : Session) (name : String) (v : Value) :
    (session.finish name v).inProgress = session.inProgress.dropLast := rfl

theorem inProgress_abandon (session : Session) (name : String) :
    (session.abandon name).inProgress = session.inProgress.dropLast := rfl

end Session

/-- A session that runs the matchers of a chain, and remembers only what follows without them. -/
structure Sound (matchers : Matchers) (document : Value) (chain : List String) (session : Session) :
    Prop where
  grounded : Grounded matchers document session.resolved
  apart : ∀ name ∈ chain, name ∉ session.resolved.names
  progress : session.inProgress = chain

namespace Sound

variable {matchers : Matchers} {document : Value} {chain : List String} {session : Session}
  {name : String}

theorem empty : Sound matchers document [] Session.empty := ⟨.nil, nofun, rfl⟩

/-- A matcher that is not remembered can join the chain. -/
theorem start (h : Sound matchers document chain session) (hname : name ∉ session.resolved.names) :
    Sound matchers document (chain ++ [name]) (session.start name) := by
  refine ⟨h.grounded, ?_, ?_⟩
  · exact List.forall_mem_append.2 ⟨h.apart, List.forall_mem_singleton.2 hname⟩
  · rw [Session.inProgress_start, h.progress]

/-- A matcher leaves the chain with a value that follows from what is remembered. -/
theorem finish (h : Sound matchers document (chain ++ [name]) session) (hc : name ∉ chain)
    {p : Pipeline} (hp : matchers.get? name = some p) {v : Value}
    (hv : p.run session.resolved.known document = .ok v) :
    Sound matchers document chain (session.finish name v) ∧
      (session.finish name v).resolved = session.resolved ++ [(name, v)] := by
  have hname : name ∉ session.resolved.names := h.apart name (by simp)
  have hput : (session.finish name v).resolved = session.resolved ++ [(name, v)] :=
    Fields.put_of_not_mem hname v
  refine ⟨⟨?_, fun x hx => ?_, ?_⟩, hput⟩
  · rw [hput]
    exact h.grounded.snoc hname hp hv
  · rw [hput, Fields.names_append, List.mem_append, not_or]
    refine ⟨h.apart x (List.mem_append_left _ hx), fun hmem => hc ?_⟩
    obtain rfl : x = name := List.mem_singleton.1 hmem
    exact hx
  · rw [Session.inProgress_finish, h.progress, List.dropLast_concat]

/-- A matcher leaves the chain without a value. -/
theorem abandon (h : Sound matchers document (chain ++ [name]) session) :
    Sound matchers document chain (session.abandon name) := by
  refine ⟨h.grounded, fun x hx => h.apart x (List.mem_append_left _ hx), ?_⟩
  rw [Session.inProgress_abandon, h.progress, List.dropLast_concat]

end Sound

/-- An action in a session comes to a result, and to a session that is sound for the chain and
remembers all that was remembered. -/
structure Sound.Outcome (matchers : Matchers) (document : Value) (chain : List String)
    (session : Session) {α : Type} (outcome : α × Session) (result : α) : Prop where
  result : outcome.1 = result
  sound : Sound matchers document chain outcome.2
  grows : session.resolved <+: outcome.2.resolved

/-- An action comes to one and the same result in every session that is sound for a chain. -/
def Yields (matchers : Matchers) (document : Value) (chain : List String) {α : Type}
    (action : StateM Session α) (result : α) : Prop :=
  ∀ session, Sound matchers document chain session →
    Sound.Outcome matchers document chain session (action session) result

/-- Looking a name up comes to its value in the chain, and remembers it. -/
structure Sound.Found (matchers : Matchers) (document : Value) (chain : List String) (name : String)
    (session : Session) (outcome : Except EvalError Value × Session) : Prop
    extends Outcome matchers document chain session outcome
      (matchers.valueIn document chain name) where
  remembers : ∀ v, outcome.1 = .ok v → outcome.2.resolved.get? name = some v

/-- A lookup that finds the values in a chain. -/
def Finds (matchers : Matchers) (document : Value) (chain : List String)
    (find : String → Resolving Value) : Prop :=
  ∀ name session, Sound matchers document chain session →
    Sound.Found matchers document chain name session (find name session)

namespace Resolving

variable {α : Type} {find : String → Resolving Value} {session : Session} {name : String}

theorem bind_apply {β : Type} (x : Resolving α) (f : α → Resolving β) (session : Session) :
    (x >>= f) session =
      match (x session).1 with
      | .ok a => f a (x session).2
      | .error e => (.error e, (x session).2) := by
  cases h : (x session).1 with
  | ok a => exact congrArg (fun r => (ExceptT.bindCont f r : StateM Session _) (x session).2) h
  | error e => exact congrArg (fun r => (ExceptT.bindCont f r : StateM Session _) (x session).2) h

theorem answer_ask_ok {v : Value} (h : (find name session).1 = .ok v)
    (next : Value → Inquiry α) :
    (Inquiry.ask name next).answer find session = (next v).answer find (find name session).2 := by
  rw [Inquiry.answer, bind_apply, h]

theorem answer_ask_error {e : EvalError} (h : (find name session).1 = .error e)
    (next : Value → Inquiry α) :
    (Inquiry.ask name next).answer find session = (.error e, (find name session).2) := by
  rw [Inquiry.answer, bind_apply, h]

end Resolving

namespace Finds

variable {matchers : Matchers} {document : Value} {chain : List String}
  {find : String → Resolving Value} {α : Type}

/-- A run over such a lookup gives what a run over the values gives. -/
theorem answer_yields (h : Finds matchers document chain find) (t : Inquiry α) :
    Yields matchers document chain (t.answer find : Resolving α)
      (t.answer (matchers.valueIn document chain)) := by
  induction t with
  | ended r =>
    intro session hs
    cases r with
    | ok a => exact ⟨rfl, hs, List.prefix_rfl⟩
    | error e => exact ⟨rfl, hs, List.prefix_rfl⟩
  | ask name next ih =>
    intro session hs
    have hask := h name session hs
    cases hv : matchers.valueIn document chain name with
    | ok v =>
      have hrest := ih v _ hask.sound
      rw [Inquiry.answer_ask_ok hv, Resolving.answer_ask_ok (hask.result.trans hv)]
      exact ⟨hrest.result, hrest.sound, hask.grows.trans hrest.grows⟩
    | error e =>
      rw [Inquiry.answer_ask_error hv, Resolving.answer_ask_error (hask.result.trans hv)]
      exact ⟨rfl, hask.sound, hask.grows⟩

/-- A run that had a value could repeat it from what is remembered at its end. -/
theorem answer_known (h : Finds matchers document chain find) {t : Inquiry α} {session : Session}
    (hs : Sound matchers document chain session) {a : α}
    (ha : (t.answer find session).1 = .ok a) :
    t.answer (t.answer find session).2.resolved.known = .ok a := by
  induction t generalizing session with
  | ended r =>
    rw [Inquiry.answer_ended]
    cases r with
    | ok b => exact ha
    | error e => cases ha
  | ask name next ih =>
    have hask := h name session hs
    cases hv : (find name session).1 with
    | ok v =>
      have hrest := h.answer_yields (next v) _ hask.sound
      rw [Resolving.answer_ask_ok hv] at ha ⊢
      have hknown := Fields.get?_of_prefix hrest.grows (hask.remembers v hv)
      rw [Inquiry.answer_ask_ok (Fields.known_eq_ok.2 hknown)]
      exact ih v hask.sound ha
    | error e =>
      rw [Resolving.answer_ask_error hv] at ha
      cases ha

theorem run_yields (h : Finds matchers document chain find) (p : Pipeline) (input : Value) :
    Yields matchers document chain (p.run find input : Resolving Value)
      (p.run (matchers.valueIn document chain) input) := by
  rw [Pipeline.run_eq_answer find, Pipeline.run_eq_answer (matchers.valueIn document chain)]
  exact h.answer_yields _

theorem run_known (h : Finds matchers document chain find) {p : Pipeline} {input : Value}
    {session : Session} (hs : Sound matchers document chain session) {v : Value}
    (hv : (p.run find input session).1 = .ok v) :
    p.run (p.run find input session).2.resolved.known input = .ok v := by
  rw [Pipeline.run_eq_answer find] at hv ⊢
  rw [Pipeline.run_eq_answer (Fields.known _)]
  exact h.answer_known hs hv

end Finds

end DocMatch
