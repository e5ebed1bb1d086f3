import DocMatch.Proofs.Resolve.Arrangement
import DocMatch.Proofs.Resolve.Machine

/-!
What the journal tells. A matcher is not run while its value is remembered, nor while a run of it
goes on. So each name is in one of three standings, and its entries in the journal take it from one
to the next; it is run again only if its last run failed.

    idle ── started ──▶ running ── resolved ──▶ remembered
     ▲                     │
     └────── failed ───────┘

    a = matchers.c.x.y              resolve a    started a, started c, resolved c, failed a
    b = matchers.c | matchers.c     resolve b    started b, resolved b
    c = y                           resolve a    started a, failed a

And since the first error ends a call, no call starts two runs of one matcher, however often and
from wherever it is referred to.
-/

namespace DocMatch

/-- The matcher that an entry of a journal is about. -/
def Event.name : Event → String
  | started name | resolved name | failed name => name

/-- Where a matcher is at some moment of a session. -/
inductive Standing
  | idle | running | remembered

/-- A journal, latest entry first, tells of a name how it has come to a standing. -/
inductive Tells (name : String) : Standing → List Event → Prop
  | nothing : Tells name .idle []
  | started {journal : List Event} (h : Tells name .idle journal) :
    Tells name .running (.started name :: journal)
  | resolved {journal : List Event} (h : Tells name .running journal) :
    Tells name .remembered (.resolved name :: journal)
  | failed {journal : List Event} (h : Tells name .running journal) :
    Tells name .idle (.failed name :: journal)
  | other {standing : Standing} {journal : List Event} {event : Event} (hne : event.name ≠ name)
    (h : Tells name standing journal) : Tells name standing (event :: journal)

/-- A journal in which a run starts only if nothing was told of its matcher before, or last that a
run of it failed. -/
def OnlyRetries (journal : List Event) : Prop :=
  ∀ later name earlier, journal = later ++ .started name :: earlier →
    ∀ last, earlier.find? (·.name = name) = some last → last = .failed name

/-- A journal that goes on from an earlier one, and tells since then of no two starts of runs of one
matcher. -/
def StartsOnce (earlier journal : List Event) : Prop :=
  ∃ during, journal = during ++ earlier ∧ ∀ name, during.count (.started name) ≤ 1

namespace Tells

variable {name : String} {standing : Standing} {journal earlier : List Event}

/-- What was told up to some moment also led to a standing. -/
theorem of_append {later : List Event} (h : Tells name standing (later ++ earlier)) :
    ∃ before, Tells name before earlier := by
  induction later generalizing standing with
  | nil => exact ⟨standing, h⟩
  | cons event later ih =>
    cases h with
    | started h => exact ih h
    | resolved h => exact ih h
    | failed h => exact ih h
    | other _ h => exact ih h

/-- Of an idle matcher nothing was told, or last that a run of it failed. -/
theorem last_failed (h : Tells name .idle journal) {last : Event}
    (hlast : journal.find? (·.name = name) = some last) : last = .failed name := by
  induction journal with
  | nil => simp at hlast
  | cons event earlier ih =>
    cases h with
    | failed _ =>
      rw [List.find?_cons_of_pos (by simp [Event.name])] at hlast
      exact (Option.some.inj hlast).symm
    | other hne h =>
      rw [List.find?_cons_of_neg (by simpa using hne)] at hlast
      exact ih h hlast

/-- A run starts only from the idle standing. -/
theorem idle_of_started (h : Tells name standing (.started name :: journal)) :
    Tells name .idle journal := by
  cases h with
  | started h => exact h
  | other hne _ => exact absurd rfl hne

end Tells

theorem onlyRetries_of_tells {journal : List Event}
    (h : ∀ name, ∃ standing, Tells name standing journal) : OnlyRetries journal := by
  intro later name earlier hsplit last hlast
  obtain ⟨standing, hname⟩ := h name
  rw [hsplit] at hname
  obtain ⟨before, hstart⟩ := hname.of_append
  exact hstart.idle_of_started.last_failed hlast

/-! ### The moves of a machine -/

/-- The matcher at the end of a chain is nowhere else in it, and not remembered. -/
theorem Orderly.last {matchers : Matchers} {chain asked : List String} {name : String}
    {session : Session} (h : Orderly matchers (chain ++ [name]) asked session) :
    name ∉ chain ∧ name ∉ session.resolved.names := by
  obtain ⟨_, _, hne⟩ := List.nodup_append.1 h.simple
  exact ⟨fun hc => hne name hc name (by simp) rfl, h.apart name (by simp)⟩

namespace Machine

/-- A machine that gives an error back. -/
def Fails (m : Machine) : Prop := ∃ e, m.task = .give (.error e)

/-- What a step does to the stack and the session. It leaves them alone; or it starts the run of a
matcher that is not remembered and not on the stack, which it never does while it fails; or the
innermost run ends with what is given back. -/
inductive Move (m m' : Machine) : Prop
  | rest (hsession : m'.session = m.session) (hstack : m'.stack = m.stack)
    (hfails : m.Fails → m'.Fails)
  | start (name : String) (hname : name ∉ m.session.resolved.names) (hc : name ∉ m.stack)
    (hfails : ¬ m.Fails) (hsession : m'.session = m.session.start name)
    (hstack : m'.stack = m.stack ++ [name])
  | finish (name : String) (v : Value) (hname : name ∉ m.session.resolved.names)
    (hc : name ∉ m'.stack) (hfails : ¬ m.Fails) (hsession : m'.session = m.session.finish name v)
    (hstack : m.stack = m'.stack ++ [name])
  | abandon (name : String) (hname : name ∉ m.session.resolved.names) (hc : name ∉ m'.stack)
    (hfails : m'.Fails) (hsession : m'.session = m.session.abandon name)
    (hstack : m.stack = m'.stack ++ [name])

theorem not_fails_ask (name : String) (waiting : List Waiting) (session : Session) :
    ¬ (⟨.ask name, waiting, session⟩ : Machine).Fails := by
  rintro ⟨e, he⟩
  cases he

theorem not_fails_run (name : String) (t : Inquiry Value) (waiting : List Waiting)
    (session : Session) : ¬ (⟨.run name t, waiting, session⟩ : Machine).Fails := by
  rintro ⟨e, he⟩
  cases he

variable {matchers : Matchers} {document : Value} {m m' : Machine} {name : String}
  {waiting : List Waiting} {session : Session}

theorem move_enter (document : Value) (h : Steady matchers ⟨.ask name, waiting, session⟩) :
    Move ⟨.ask name, waiting, session⟩ (matchers.enter document name waiting session) := by
  have hfails := not_fails_ask name waiting session
  rcases matchers.enter_cases document name waiting session with
    ⟨r, henter⟩ | ⟨hname, hc, p, _, henter⟩
  · rw [henter]
    exact .rest rfl rfl fun hf => absurd hf hfails
  · rw [henter]
    have hprogress : session.inProgress = _ := h.orderly.progress
    rw [hprogress] at hc
    refine .start name hname hc hfails rfl ?_
    rw [stack_ask]
    rfl

/-- The innermost run ends. -/
theorem move_leave {r : Except EvalError Value} (h : Steady matchers m)
    (hstack : m.stack = (waiting.map Waiting.name).reverse ++ [name])
    (hfails : ∀ v, r = .ok v → ¬ m.Fails) :
    Move m (given waiting (Session.leave name (r, m.session))) := by
  have horderly := h.orderly
  rw [hstack] at horderly
  obtain ⟨hc, hname⟩ := horderly.last
  rw [← stack_give r waiting m.session] at hc hstack
  cases r with
  | ok v => exact .finish name v hname hc (hfails v rfl) rfl hstack
  | error e => exact .abandon name hname hc ⟨e, rfl⟩ rfl hstack

/-- Every step of a steady machine is such a move. -/
theorem Steady.move (document : Value) (h : Steady matchers m) :
    Move m (matchers.step document m) := by
  obtain ⟨task, waiting, session⟩ := m
  cases task with
  | ask name => exact move_enter document h
  | run name t =>
    have hfails := not_fails_run name t waiting session
    cases t with
    | ended r => exact move_leave h rfl fun _ _ => hfails
    | ask other next =>
      refine .rest rfl ?_ fun hf => absurd hf hfails
      rw [Matchers.step, stack_waiting]
      exact List.append_nil _
  | give r =>
    cases waiting with
    | nil =>
      cases r with
      | ok v => exact .rest rfl rfl id
      | error e => exact .rest rfl rfl id
    | cons w waiting =>
      have hstack := stack_waiting (.give r) w waiting session
      rw [Task.running, List.append_nil] at hstack
      cases r with
      | ok v => exact .rest rfl hstack.symm (by rintro ⟨e, he⟩; cases he)
      | error e => exact move_leave h hstack fun v hv => by cases hv

/-- What every move keeps is kept by any number of steps. -/
theorem Steady.iterate_keeps {P : Machine → Prop} (hP : ∀ {m m'}, Move m m' → P m → P m')
    (document : Value) (h : Steady matchers m) (hm : P m) (n : Nat) :
    P ((matchers.step document)^[n] m) := by
  induction n with
  | zero => exact hm
  | succ n ih =>
    rw [Function.iterate_succ_apply']
    exact hP ((h.iterate_step document n).move document) ih

/-- What every move keeps is kept when a name is resolved. -/
theorem resolve_keeps {P : Machine → Prop} (hP : ∀ {m m'}, Move m m' → P m → P m')
    (hs : Sound matchers document [] session) (name : String) (h : P ⟨.ask name, [], session⟩) :
    P (given [] (matchers.resolve document name session)) := by
  have hstart : Steady matchers ⟨.ask name, [], session⟩ :=
    ⟨⟨hs.progress, List.nodup_nil, nofun, nofun, List.IsChain.singleton name⟩, trivial, nofun⟩
  obtain ⟨n, hn⟩ := computes_resolveIn matchers document [] name [] session hs
  have hkept := hstart.iterate_keeps hP document h n
  rw [hn] at hkept
  exact hkept

end Machine

/-! ### Each name and its entries -/

/-- Where a matcher is, by the stack and by what is remembered. -/
def standing (stack remembered : List String) (name : String) : Standing :=
  if name ∈ stack then .running else if name ∈ remembered then .remembered else .idle

/-- The journal tells of every name how it has come to where it is. -/
def Told (stack : List String) (session : Session) : Prop :=
  ∀ name, Tells name (standing stack session.resolved.names name) session.journal

/-- A matcher that joins the stack makes no difference to where the others are. -/
theorem standing_concat {stack remembered : List String} {name x : String} (hx : x ≠ name) :
    standing (stack ++ [name]) remembered x = standing stack remembered x := by
  by_cases hc : x ∈ stack <;> simp [standing, hc, hx]

/-- Nor does one that is remembered from now on. -/
theorem standing_remembered_concat {stack remembered : List String} {name x : String}
    (hx : x ≠ name) : standing stack (remembered ++ [name]) x = standing stack remembered x := by
  by_cases hc : x ∈ remembered <;> simp [standing, hc, hx]

theorem Session.names_finish {session : Session} {name : String}
    (hname : name ∉ session.resolved.names) (v : Value) :
    (session.finish name v).resolved.names = session.resolved.names ++ [name] := by
  rw [finish, Fields.put_of_not_mem hname, Fields.names_append]
  rfl

theorem Told.move {m m' : Machine} (hm : Machine.Move m m') (h : Told m.stack m.session) :
    Told m'.stack m'.session := by
  intro x
  have hx := h x
  cases hm with
  | rest hsession hstack _ => rwa [hsession, hstack]
  | start name hname hc _ hsession hstack =>
    rw [hsession, hstack]
    by_cases hxn : x = name
    · subst hxn
      rw [standing, if_neg hc, if_neg hname] at hx
      rw [standing, if_pos (by simp)]
      exact .started hx
    · refine .other (Ne.symm hxn) ?_
      rw [standing_concat hxn]
      exact hx
  | finish name v hname hc _ hsession hstack =>
    rw [hsession, Session.names_finish hname]
    rw [hstack] at hx
    by_cases hxn : x = name
    · subst hxn
      rw [standing, if_pos (by simp)] at hx
      rw [standing, if_neg hc, if_pos (by simp)]
      exact .resolved hx
    · refine .other (Ne.symm hxn) ?_
      rw [standing_remembered_concat hxn]
      rwa [standing_concat hxn] at hx
  | abandon name hname hc _ hsession hstack =>
    rw [hsession]
    rw [hstack] at hx
    by_cases hxn : x = name
    · subst hxn
      rw [standing, if_pos (by simp)] at hx
      rw [standing, if_neg hc, Session.abandon, if_neg hname]
      exact .failed hx
    · refine .other (Ne.symm hxn) ?_
      rwa [standing_concat hxn] at hx

/-! ### One call -/

namespace Machine

/-- Since its journal was `earlier`, a machine has started no two runs of one matcher; and unless it
fails, every matcher that it has started since then is on the stack or remembered. -/
def Thrifty (earlier : List Event) (m : Machine) : Prop :=
  ∃ during, m.session.journal = during ++ earlier ∧
    (∀ name, during.count (.started name) ≤ 1) ∧
    (¬ m.Fails → ∀ name, .started name ∈ during →
      name ∈ m.stack ∨ name ∈ m.session.resolved.names)

theorem Thrifty.move {earlier : List Event} {m m' : Machine} (hm : Move m m')
    (h : Thrifty earlier m) : Thrifty earlier m' := by
  obtain ⟨during, hjournal, honce, hstarted⟩ := h
  cases hm with
  | rest hsession hstack hfails =>
    refine ⟨during, by rw [hsession, hjournal], honce, ?_⟩
    intro hno
    rw [hsession, hstack]
    exact hstarted fun hf => hno (hfails hf)
  | start name hname hc hfails hsession hstack =>
    -- what has been started in this call is on the stack or remembered, and this matcher is neither
    have hnew : .started name ∉ during := by
      intro hmem
      rcases hstarted hfails name hmem with hstack | hremembered
      · exact hc hstack
      · exact hname hremembered
    refine ⟨.started name :: during, by rw [hsession, Session.start, hjournal]; rfl, ?_, ?_⟩
    · intro x
      by_cases hxn : x = name
      · rw [hxn, List.count_cons_self, List.count_eq_zero.2 hnew]
      · rw [List.count_cons_of_ne (by simpa using Ne.symm hxn)]
        exact honce x
    · intro _ x hx
      rw [hsession, hstack, List.mem_append]
      rcases List.mem_cons.1 hx with hxn | hx
      · cases hxn
        exact .inl (.inr (by simp))
      · exact (hstarted hfails x hx).imp_left .inl
  | finish name v hname hc hfails hsession hstack =>
    refine ⟨.resolved name :: during, by rw [hsession, Session.finish, hjournal]; rfl, ?_, ?_⟩
    · intro x
      rw [List.count_cons_of_ne (by simp)]
      exact honce x
    · intro _ x hx
      have hx : .started x ∈ during := by simpa using hx
      rw [hsession, Session.names_finish hname, List.mem_append]
      rcases hstarted hfails x hx with hx | hx
      · rw [hstack, List.mem_append] at hx
        exact hx.imp_right .inr
      · exact .inr (.inl hx)
  | abandon name _ _ hfails hsession _ =>
    refine ⟨.failed name :: during, by rw [hsession, Session.abandon, hjournal]; rfl, ?_, ?_⟩
    · intro x
      rw [List.count_cons_of_ne (by simp)]
      exact honce x
    · exact fun hno => absurd hfails hno

theorem thrifty_ask (name : String) (session : Session) :
    Thrifty session.journal ⟨.ask name, [], session⟩ :=
  ⟨[], rfl, fun _ => Nat.zero_le 1, fun _ => nofun⟩

/-- After a value, the next name can be asked for. -/
theorem Thrifty.ask {earlier : List Event} {v : Value} {session : Session}
    (h : Thrifty earlier (given [] (.ok v, session))) (name : String) :
    Thrifty earlier ⟨.ask name, [], session⟩ := by
  obtain ⟨during, hjournal, honce, hstarted⟩ := h
  refine ⟨during, hjournal, honce, fun _ => hstarted ?_⟩
  rintro ⟨e, he⟩
  cases he

theorem Thrifty.startsOnce {earlier : List Event} {m : Machine} (h : Thrifty earlier m) :
    StartsOnce earlier m.session.journal := by
  obtain ⟨during, hjournal, honce, _⟩ := h
  exact ⟨during, hjournal, honce⟩

end Machine

/-! ### One call after the other -/

namespace Matchers

open Machine

variable {matchers : Matchers} {document : Value} {session : Session}

theorem told_resolve (hs : Sound matchers document [] session) (h : Told [] session)
    (name : String) : Told [] (matchers.resolve document name session).2 :=
  resolve_keeps (P := fun m => Told m.stack m.session) Told.move hs name h

/-- What every move keeps, and then every name that is asked for, is kept when names are resolved in
order, up to the first that fails. -/
theorem forM_resolve_keeps {P : Machine → Prop} (hP : ∀ {m m'}, Move m m' → P m → P m')
    (hnext : ∀ {v session}, P (given [] (.ok v, session)) → ∀ name, P ⟨.ask name, [], session⟩)
    (names : List String) (hs : Sound matchers document [] session) {v : Value}
    (h : P (given [] (.ok v, session))) :
    ∃ r, P (given [] (r, ((names.forM fun name => discard (matchers.resolve document name) :
      Resolving Unit) session).2)) := by
  induction names generalizing session v with
  | nil => exact ⟨.ok v, h⟩
  | cons name names ih =>
    have hkept := resolve_keeps hP hs name (hnext h name)
    simp only [List.forM_eq_forM, List.forM_cons, discard_bind_apply]
    cases hr : (matchers.resolve document name session).1 with
    | ok w =>
      rw [given, hr] at hkept
      exact ih (matchers.resolve_yields document name session hs).sound hkept
    | error e =>
      rw [given, hr] at hkept
      exact ⟨.error e, hkept⟩

theorem resolveAll_session (matchers : Matchers) (document : Value) (session : Session) :
    (matchers.resolveAll document session).2 =
      ((matchers.names.forM fun name => discard (matchers.resolve document name) :
        Resolving Unit) session).2 := by
  unfold resolveAll
  rw [Resolving.bind_apply]
  split
  · rfl
  · rfl

/-- What every action of a list keeps is kept by all of them. -/
theorem mapM_keeps {α β : Type} {Q : Session → Prop} {action : α → StateM Session β}
    (hQ : ∀ a session, Q session → Q (action a session).2) (as : List α) (h : Q session) :
    Q (as.mapM action session).2 := by
  induction as generalizing session with
  | nil => exact h
  | cons a as ih =>
    rw [List.mapM_cons]
    exact ih (hQ a session h)

/-- Whatever a session is asked for, its journal tells how every matcher has come to where it is. -/
theorem told_sessionAfter (matchers : Matchers) (document : Value) (calls : List Call) :
    Told [] (matchers.sessionAfter document calls) := by
  let Q (session : Session) : Prop := Sound matchers document [] session ∧ Told [] session
  have hresolve (name : String) (session : Session) (h : Q session) :
      Q (matchers.resolve document name session).2 :=
    ⟨(matchers.resolve_yields document name session h.1).sound, told_resolve h.1 h.2 name⟩
  have hcall (call : Call) (session : Session) (h : Q session) :
      Q (matchers.call document call session).2 := by
    cases call with
    | resolve name => exact hresolve name session h
    | resolveEach =>
      have heach : Q (matchers.resolveEach document session).2 := by
        refine mapM_keeps (Q := Q) ?_ matchers.names h
        exact hresolve
      exact heach
  have hempty : Q Session.empty := ⟨Sound.empty, fun _ => .nothing⟩
  exact (mapM_keeps (Q := Q) hcall calls hempty).2

/-- A matcher is run at most once in a call, whatever the session has been asked for before: neither
resolving a name nor resolving all starts two runs of one matcher. And over a whole session a run is
started again only if the last run of that matcher failed. -/
theorem runs_at_most_once (matchers : Matchers) (document : Value) (calls : List Call) :
    let session := matchers.sessionAfter document calls
    let all := (matchers.resolveAll document session).2
    (∀ name, StartsOnce session.journal (matchers.resolve document name session).2.journal) ∧
    StartsOnce session.journal all.journal ∧
    OnlyRetries session.journal ∧ OnlyRetries all.journal := by
  intro session all
  have hs : Sound matchers document [] session := matchers.sound_sessionAfter document calls
  have htold : Told [] session := matchers.told_sessionAfter document calls
  have hall : all = _ := resolveAll_session matchers document session
  refine ⟨fun name => ?_, ?_, onlyRetries_of_tells fun x => ⟨_, htold x⟩, ?_⟩
  · exact (resolve_keeps Thrifty.move hs name (thrifty_ask name session)).startsOnce
  · have hstart : Thrifty session.journal (given [] (.ok .null, session)) :=
      ⟨[], rfl, fun _ => Nat.zero_le 1, fun _ => nofun⟩
    -- every name but the last has a value, so the next one starts from a machine that does not fail
    obtain ⟨r, hthrifty⟩ := forM_resolve_keeps Thrifty.move Thrifty.ask matchers.names hs hstart
    rw [hall]
    exact hthrifty.startsOnce
  · obtain ⟨r, hend⟩ := forM_resolve_keeps (P := fun m => Told m.stack m.session) Told.move
      (fun h _ => h) matchers.names hs (v := .null) htold
    rw [hall]
    exact onlyRetries_of_tells fun x => ⟨_, hend x⟩

/-- A matcher that two others refer to, one of which has no value. -/
def shared : Matchers :=
  [("a", ⟨⟨.filter, .path [.key referenceWord, .key "c", .key "x", .key "y"], none⟩, []⟩),
    ("b", ⟨⟨.filter, .path [.key referenceWord, .key "c"], none⟩,
      [⟨.filter, .path [.key referenceWord, .key "c"], none⟩]⟩),
    ("c", ⟨⟨.filter, .path [.key "y"], none⟩, []⟩)]

-- only the matcher that failed is run again
example :
    (shared.sessionAfter twoFields [.resolve "a", .resolve "b", .resolve "a"]).journal.reverse =
      [.started "a", .started "c", .resolved "c", .failed "a", .started "b", .resolved "b",
        .started "a", .failed "a"] := by
  cbv

end Matchers

end DocMatch
