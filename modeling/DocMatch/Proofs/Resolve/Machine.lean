import DocMatch.Proofs.Resolve.Cycles

/-!
Resolving step by step. What resolving does can be done by a machine that takes one small step after
the other, with a stack of the matchers that wait for a value. Nothing in the machine bounds the
number of its steps or the height of its stack; but it comes to an end, with what resolving gives,
and its stack is never higher than there are declared names.

    task      stack
    ask a
    run a     a
    ask b     a
    run b     a, b
    ask c     a, b
    give 7    a, b      c is remembered
    run b     a, b
    give 8    a         b ends, and a goes on

The stack is what the session has in progress: declared names, each once and none of them
remembered, where each refers to the next, and the last of them to the name that is asked for.
-/

namespace DocMatch

/-- A matcher that waits for a value, and how its run goes on with it. -/
structure Waiting where
  name : String
  next : Value → Inquiry Value

/-- What a machine is at: it asks for a name, runs a matcher, or gives a result back. -/
inductive Task
  | ask (name : String)
  | run (name : String) (t : Inquiry Value)
  | give (r : Except EvalError Value)

/-- A machine at work: its task, the matchers that wait, innermost first, and its session. -/
structure Machine where
  task : Task
  waiting : List Waiting
  session : Session

namespace Task

/-- The name that is asked for, if one is. -/
def asked : Task → List String
  | ask name => [name]
  | run .. | give _ => []

/-- The matcher that is run, if one is. -/
def running : Task → List String
  | run name _ => [name]
  | ask _ | give _ => []

end Task

namespace Machine

/-- The matchers whose runs have not ended, outermost first. -/
def stack (m : Machine) : List String := (m.waiting.map Waiting.name).reverse ++ m.task.running

/-- The machine that gives the result of an outcome back, in its session. -/
def given (waiting : List Waiting) (outcome : Except EvalError Value × Session) : Machine :=
  ⟨.give outcome.1, waiting, outcome.2⟩

end Machine

/-- Ends the run of a matcher. -/
def Session.leave (name : String) :
    Except EvalError Value × Session → Except EvalError Value × Session
  | (.ok v, session) => (.ok v, session.finish name v)
  | (.error e, session) => (.error e, session.abandon name)

namespace Matchers

/-- Takes a name that is asked for: its value is remembered, or it is in progress, or it is not
declared, or else its run starts. -/
def enter (matchers : Matchers) (document : Value) (name : String) (waiting : List Waiting)
    (session : Session) : Machine :=
  match session.resolved.get? name with
  | some v => .given waiting (.ok v, session)
  | none =>
    if name ∈ session.inProgress then
      .given waiting (.error (.cycle (session.inProgress ++ [name])), session)
    else
      match matchers.get? name with
      | none => .given waiting (.error (.unknownMatcher name), session)
      | some p => ⟨.run name (p.run Inquiry.lookup document), waiting, session.start name⟩

/-- A step. A run goes on up to a reference, waits for the value of that, and ends with its error if
it has none. A machine that gives a result back while nothing waits has come to its end. -/
def step (matchers : Matchers) (document : Value) : Machine → Machine
  | ⟨.ask name, waiting, session⟩ => matchers.enter document name waiting session
  | ⟨.run name (.ended r), waiting, session⟩ => .given waiting (Session.leave name (r, session))
  | ⟨.run name (.ask other next), waiting, session⟩ =>
    ⟨.ask other, ⟨name, next⟩ :: waiting, session⟩
  | ⟨.give (.ok v), w :: waiting, session⟩ => ⟨.run w.name (w.next v), waiting, session⟩
  | ⟨.give (.error e), w :: waiting, session⟩ =>
    .given waiting (Session.leave w.name (.error e, session))
  | ⟨.give r, [], session⟩ => ⟨.give r, [], session⟩

/-! ### What a step does -/

section

variable {matchers : Matchers} {document : Value} {name : String} {waiting : List Waiting}
  {session : Session}

theorem enter_of_remembered {v : Value} (hv : session.resolved.get? name = some v) :
    matchers.enter document name waiting session = .given waiting (.ok v, session) := by
  rw [enter, hv]

theorem enter_of_mem (hv : session.resolved.get? name = none) (hc : name ∈ session.inProgress) :
    matchers.enter document name waiting session =
      .given waiting (.error (.cycle (session.inProgress ++ [name])), session) := by
  rw [enter, hv]
  exact if_pos hc

theorem enter_of_unknown (hv : session.resolved.get? name = none) (hc : name ∉ session.inProgress)
    (hp : matchers.get? name = none) :
    matchers.enter document name waiting session =
      .given waiting (.error (.unknownMatcher name), session) := by
  rw [enter, hv, hp]
  exact if_neg hc

theorem enter_of_declared (hv : session.resolved.get? name = none)
    (hc : name ∉ session.inProgress) {p : Pipeline} (hp : matchers.get? name = some p) :
    matchers.enter document name waiting session =
      ⟨.run name (p.run Inquiry.lookup document), waiting, session.start name⟩ := by
  rw [enter, hv, hp]
  exact if_neg hc

/-- A name that is asked for has a result at once, or its run starts. -/
theorem enter_cases (matchers : Matchers) (document : Value) (name : String)
    (waiting : List Waiting) (session : Session) :
    (∃ r, matchers.enter document name waiting session = .given waiting (r, session)) ∨
    (name ∉ session.resolved.names ∧ name ∉ session.inProgress ∧
      ∃ p, matchers.get? name = some p ∧ matchers.enter document name waiting session =
        ⟨.run name (p.run Inquiry.lookup document), waiting, session.start name⟩) := by
  cases hv : session.resolved.get? name with
  | some v => exact Or.inl ⟨_, enter_of_remembered hv⟩
  | none =>
    by_cases hc : name ∈ session.inProgress
    · exact Or.inl ⟨_, enter_of_mem hv hc⟩
    · cases hp : matchers.get? name with
      | none => exact Or.inl ⟨_, enter_of_unknown hv hc hp⟩
      | some p =>
        have hname : name ∉ session.resolved.names := Fields.get?_eq_none_iff.1 hv
        exact Or.inr ⟨hname, hc, p, rfl, enter_of_declared hv hc hp⟩

end

end Matchers

/-! ### What every step keeps -/

/-- A chain of matchers that is what a session has in progress: declared names, each once and none
of them remembered, that refer to the next and the last of them to the name that is asked for. -/
structure Orderly (matchers : Matchers) (chain asked : List String) (session : Session) :
    Prop where
  progress : session.inProgress = chain
  simple : chain.Nodup
  declared : ∀ x ∈ chain, x ∈ matchers.names
  apart : ∀ x ∈ chain, x ∉ session.resolved.names
  linked : (chain ++ asked).IsChain matchers.RefersTo

namespace Orderly

variable {matchers : Matchers} {chain asked : List String} {session : Session} {name : String}

/-- Nothing is asked for any more. -/
theorem settle (h : Orderly matchers chain asked session) : Orderly matchers chain [] session := by
  refine ⟨h.progress, h.simple, h.declared, h.apart, ?_⟩
  rw [List.append_nil]
  exact h.linked.left_of_append

/-- The run of the name that is asked for starts. -/
theorem start (h : Orderly matchers chain [name] session)
    (hname : name ∉ session.resolved.names) (hc : name ∉ chain) {p : Pipeline}
    (hp : matchers.get? name = some p) :
    Orderly matchers (chain ++ [name]) [] (session.start name) := by
  have hdeclared : name ∈ matchers.names := Fields.mem_names_of_get? hp
  refine ⟨?_, ?_, ?_, ?_, ?_⟩
  · rw [Session.inProgress_start, h.progress]
  · rw [← List.concat_eq_append]
    exact h.simple.concat hc
  · exact List.forall_mem_append.2 ⟨h.declared, List.forall_mem_singleton.2 hdeclared⟩
  · exact List.forall_mem_append.2 ⟨h.apart, List.forall_mem_singleton.2 hname⟩
  · rw [List.append_nil]
    exact h.linked

/-- The run at the end of the chain asks for a name that its matcher refers to. -/
theorem ask (h : Orderly matchers (chain ++ [name]) [] session) {other : String}
    (href : matchers.RefersTo name other) :
    Orderly matchers (chain ++ [name]) [other] session := by
  refine ⟨h.progress, h.simple, h.declared, h.apart, ?_⟩
  rw [List.append_assoc]
  exact List.isChain_append_cons_cons.2 ⟨h.linked.left_of_append, href, .singleton other⟩

/-- The run at the end of the chain ends. If it has a value, this is remembered, and apart from the
rest of the chain. -/
theorem leave (h : Orderly matchers (chain ++ [name]) [] session) (r : Except EvalError Value) :
    Orderly matchers chain [] (Session.leave name (r, session)).2 := by
  obtain ⟨hdeclared, _⟩ := List.forall_mem_append.1 h.declared
  obtain ⟨hapart, hname⟩ := List.forall_mem_append.1 h.apart
  obtain ⟨hsimple, _, hne⟩ := List.nodup_append.1 h.simple
  have hlinked : (chain ++ []).IsChain matchers.RefersTo := by
    rw [List.append_nil]
    exact h.linked.left_of_append.left_of_append
  cases r with
  | ok v =>
    refine ⟨?_, hsimple, hdeclared, fun x hx => ?_, hlinked⟩
    · rw [Session.leave, Session.inProgress_finish, h.progress, List.dropLast_concat]
    · rw [Session.leave, Session.finish, Fields.put_of_not_mem (hname name (by simp)),
        Fields.names_append, List.mem_append, not_or]
      exact ⟨hapart x hx, fun hmem => hne x hx name (by simp) (List.mem_singleton.1 hmem)⟩
  | error e =>
    refine ⟨?_, hsimple, hdeclared, hapart, hlinked⟩
    rw [Session.leave, Session.inProgress_abandon, h.progress, List.dropLast_concat]

/-- A chain is no longer than there are declared names. -/
theorem length_le (h : Orderly matchers chain asked session) :
    chain.length ≤ matchers.names.dedup.length :=
  (h.simple.subperm fun x hx => List.mem_dedup.2 (h.declared x hx)).length_le

end Orderly

namespace Task

/-- A run asks only for names that its matcher refers to. -/
def Asks (matchers : Matchers) : Task → Prop
  | run name t => t.Within (matchers.RefersTo name) EvalError.OfStage
  | ask _ | give _ => True

theorem asks_run {matchers : Matchers} {name : String} {p : Pipeline}
    (hp : matchers.get? name = some p) (document : Value) :
    (run name (p.run Inquiry.lookup document)).Asks matchers :=
  (p.run_within document).mono fun _ href => ⟨p, hp, href⟩

end Task

namespace Machine

/-- A machine whose stack is in order, and whose runs ask only for names that their matchers refer
to, the one at work and those that wait. -/
structure Steady (matchers : Matchers) (m : Machine) : Prop where
  orderly : Orderly matchers m.stack m.task.asked m.session
  asks : m.task.Asks matchers
  waits : ∀ w ∈ m.waiting, ∀ v, (Task.run w.name (w.next v)).Asks matchers

variable {matchers : Matchers} {waiting : List Waiting} {session : Session}

theorem stack_ask (name : String) (waiting : List Waiting) (session : Session) :
    (⟨.ask name, waiting, session⟩ : Machine).stack = (waiting.map Waiting.name).reverse :=
  List.append_nil _

theorem stack_give (r : Except EvalError Value) (waiting : List Waiting) (session : Session) :
    (⟨.give r, waiting, session⟩ : Machine).stack = (waiting.map Waiting.name).reverse :=
  List.append_nil _

/-- A waiting matcher is at the end of the stack, as if it were run. -/
theorem stack_waiting (task : Task) (w : Waiting) (waiting : List Waiting) (session : Session) :
    (⟨task, w :: waiting, session⟩ : Machine).stack =
      (waiting.map Waiting.name).reverse ++ [w.name] ++ task.running := by
  rw [stack, List.map_cons, List.reverse_cons]

namespace Steady

variable {name : String}

theorem enter (document : Value) (h : Steady matchers ⟨.ask name, waiting, session⟩) :
    Steady matchers (matchers.enter document name waiting session) := by
  have horderly := h.orderly
  rw [stack_ask] at horderly
  rcases matchers.enter_cases document name waiting session with
    ⟨r, henter⟩ | ⟨hname, hc, p, hp, henter⟩
  · rw [henter]
    refine ⟨?_, trivial, h.waits⟩
    rw [given, stack_give]
    exact horderly.settle
  · rw [henter]
    refine ⟨?_, Task.asks_run hp document, h.waits⟩
    rw [horderly.progress] at hc
    exact horderly.start hname hc hp

theorem leave {t : Inquiry Value} (h : Steady matchers ⟨.run name t, waiting, session⟩)
    (r : Except EvalError Value) :
    Steady matchers (given waiting (Session.leave name (r, session))) := by
  refine ⟨?_, trivial, h.waits⟩
  rw [given, stack_give]
  exact h.orderly.leave r

theorem ask {other : String} {next : Value → Inquiry Value}
    (h : Steady matchers ⟨.run name (.ask other next), waiting, session⟩) :
    Steady matchers ⟨.ask other, ⟨name, next⟩ :: waiting, session⟩ := by
  obtain ⟨href, hnext⟩ := h.asks
  refine ⟨?_, trivial, List.forall_mem_cons.2 ⟨hnext, h.waits⟩⟩
  rw [stack_waiting, Task.running, List.append_nil]
  exact h.orderly.ask href

/-- The innermost of the matchers that wait goes on. -/
theorem resume {w : Waiting} {r : Except EvalError Value}
    (h : Steady matchers ⟨.give r, w :: waiting, session⟩) (v : Value) :
    Steady matchers ⟨.run w.name (w.next v), waiting, session⟩ := by
  obtain ⟨hnext, hwaits⟩ := List.forall_mem_cons.1 h.waits
  have horderly := h.orderly
  rw [stack_waiting, Task.running, List.append_nil] at horderly
  exact ⟨horderly, hnext v, hwaits⟩

/-- A step keeps a machine steady. -/
theorem step (document : Value) {m : Machine} (h : Steady matchers m) :
    Steady matchers (matchers.step document m) := by
  obtain ⟨task, waiting, session⟩ := m
  cases task with
  | ask name => exact h.enter document
  | run name t =>
    cases t with
    | ended r => exact h.leave r
    | ask other next => exact h.ask
  | give r =>
    cases waiting with
    | nil =>
      cases r with
      | ok v => exact h
      | error e => exact h
    | cons w waiting =>
      cases r with
      | ok v => exact h.resume v
      | error e => exact (h.resume .null).leave (.error e)

/-- Any number of steps keeps a machine steady. -/
theorem iterate_step (document : Value) {m : Machine} (h : Steady matchers m) (n : Nat) :
    Steady matchers ((matchers.step document)^[n] m) := by
  induction n with
  | zero => exact h
  | succ n ih =>
    rw [Function.iterate_succ_apply']
    exact ih.step document

end Steady

/-! ### The end -/

/-- A machine gets to another one in some number of steps. -/
def GetsTo (matchers : Matchers) (document : Value) (m m' : Machine) : Prop :=
  ∃ n, (matchers.step document)^[n] m = m'

namespace GetsTo

variable {document : Value} {m m' m'' : Machine}

theorem refl (m : Machine) : GetsTo matchers document m m := ⟨0, rfl⟩

theorem trans (h : GetsTo matchers document m m') (h' : GetsTo matchers document m' m'') :
    GetsTo matchers document m m'' := by
  obtain ⟨n, rfl⟩ := h
  obtain ⟨n', rfl⟩ := h'
  exact ⟨n' + n, Function.iterate_add_apply _ n' n m⟩

theorem head (h : GetsTo matchers document (matchers.step document m) m') :
    GetsTo matchers document m m' :=
  trans ⟨1, rfl⟩ h

end GetsTo

/-- A lookup that a machine carries out: whatever waits, it gets from a name to its result. -/
def Computes (matchers : Matchers) (document : Value) (chain : List String)
    (find : String → Resolving Value) : Prop :=
  ∀ name waiting session, Sound matchers document chain session →
    GetsTo matchers document ⟨.ask name, waiting, session⟩ (given waiting (find name session))

/-- A machine plays a run through to its end. -/
theorem Computes.run {document : Value} {chain : List String} {find : String → Resolving Value}
    (h : Computes matchers document chain find) (hfind : Finds matchers document chain find)
    (name : String) (waiting : List Waiting) (t : Inquiry Value)
    (hs : Sound matchers document chain session) :
    GetsTo matchers document ⟨.run name t, waiting, session⟩
      (given waiting (Session.leave name (t.answer find session))) := by
  induction t generalizing session with
  | ended r =>
    refine .head ?_
    cases r with
    | ok v => exact .refl _
    | error e => exact .refl _
  | ask other next ih =>
    -- while the name is looked up, this run waits on top of what waited before
    have hasked := h other (⟨name, next⟩ :: waiting) session hs
    have hsound := (hfind other session hs).sound
    refine .head (hasked.trans (.head ?_))
    cases hr : (find other session).1 with
    | ok v =>
      rw [Resolving.answer_ask_ok hr, given, hr]
      exact ih v hsound
    | error e =>
      rw [Resolving.answer_ask_error hr, given, hr]
      exact .refl _

/-- A machine resolves names. -/
theorem computes_resolveIn (matchers : Matchers) (document : Value) (chain : List String) :
    Computes matchers document chain (matchers.resolveIn document chain) := by
  induction chain using Matchers.chain_induction matchers with
  | step chain ih =>
    intro name waiting session hs
    refine .head ?_
    show GetsTo matchers document (matchers.enter document name waiting session) _
    -- the machine has no chain of its own, only what the session has in progress
    obtain rfl := hs.progress
    cases hv : session.resolved.get? name with
    | some v =>
      rw [Matchers.enter_of_remembered hv, Matchers.resolveIn_of_remembered hv]
      exact .refl _
    | none =>
      by_cases hc : name ∈ session.inProgress
      · rw [Matchers.enter_of_mem hv hc, Matchers.resolveIn_of_mem hv hc]
        exact .refl _
      · cases hp : matchers.get? name with
        | none =>
          rw [Matchers.enter_of_unknown hv hc hp, Matchers.resolveIn_of_unknown hv hc hp]
          exact .refl _
        | some p =>
          have hname : name ∉ session.resolved.names := Fields.get?_eq_none_iff.1 hv
          have hfind := matchers.resolveIn_finds document (session.inProgress ++ [name])
          have hrun := (ih name p hp hc).run hfind name waiting (p.run Inquiry.lookup document)
            (hs.start hname)
          rw [← Pipeline.run_eq_answer] at hrun
          rw [Matchers.enter_of_declared hv hc hp, Matchers.resolveIn_of_declared hv hc hp]
          exact hrun

end Machine

namespace Matchers

/-- Resolving comes to an end, whatever the matchers refer to. In whatever session a name is
resolved, the machine that asks for it gives the result that resolving gives after finitely many
steps, in the session in which resolving leaves it. And at every step up to then its stack is what
the session has in progress: declared names, each once and none of them remembered, that refer to
the next and the last of them to the name that is asked for. So the stack is never higher than there
are declared names. -/
theorem resolve_terminates (matchers : Matchers) (document : Value) (calls : List Call)
    (name : String) :
    let session := matchers.sessionAfter document calls
    let moment := fun n => (matchers.step document)^[n] ⟨.ask name, [], session⟩
    (∃ n, moment n = .given [] (matchers.resolve document name session)) ∧
    ∀ n, Orderly matchers (moment n).stack (moment n).task.asked (moment n).session ∧
      (moment n).stack.length ≤ matchers.names.dedup.length := by
  intro session moment
  have hsession : Sound matchers document [] session :=
    matchers.sound_sessionAfter document calls
  have hstart : Machine.Steady matchers ⟨.ask name, [], session⟩ :=
    ⟨⟨hsession.progress, List.nodup_nil, nofun, nofun, List.IsChain.singleton name⟩, trivial, nofun⟩
  refine ⟨Machine.computes_resolveIn matchers document [] name [] session hsession, fun n => ?_⟩
  have horderly := (hstart.iterate_step document n).orderly
  exact ⟨horderly, horderly.length_le⟩

example : ((ring.step .null)^[6] ⟨.ask "a", [], .empty⟩).stack = ["a", "b", "c"] ∧
    ((ring.step .null)^[6] ⟨.ask "a", [], .empty⟩).task.asked = ["b"] := by
  decide +kernel

end Matchers

end DocMatch
