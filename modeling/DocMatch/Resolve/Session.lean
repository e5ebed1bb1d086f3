import DocMatch.Resolve.Stage

/-!
Sessions. A session resolves named matchers against one document and remembers every value it found,
so that a matcher is run once however often it is referenced. A matcher whose value is asked for
while it is being run itself is part of a cycle:

    a = matchers.b | …        resolve a   [a]       a starts, needs b
    b = matchers.c | …                    [a, b]    b starts, needs c
    c = matchers.a.x                      [a, b, c] c starts, needs a, which is in the chain

The chain grows by a declared name each time, so resolving always comes to an end. A session also
keeps a journal of the runs that were started and how they ended.
-/

namespace DocMatch

/-- An entry of the journal: a run of a matcher starts, or ends with a value or an error. -/
inductive Event
  | started (name : String)
  | resolved (name : String)
  | failed (name : String)
  deriving DecidableEq

/-- What a session knows: the values found so far, in the order in which they were found, and the
journal, latest entry first. -/
structure Session where
  resolved : Fields Value
  journal : List Event

namespace Session

/-- The session in which nothing has been resolved. -/
def empty : Session := ⟨[], []⟩

/-- A run starts. -/
def start (session : Session) (name : String) : Session :=
  { session with journal := .started name :: session.journal }

/-- A run ends with a value, which is remembered. -/
def finish (session : Session) (name : String) (v : Value) : Session :=
  ⟨session.resolved.put name v, .resolved name :: session.journal⟩

/-- A run ends with an error, which is not remembered. -/
def abandon (session : Session) (name : String) : Session :=
  { session with journal := .failed name :: session.journal }

end Session

/-- What happens in a session: it ends with a value or an error and leaves the session changed. -/
abbrev Resolving := ExceptT EvalError (StateM Session)

namespace Matchers

/-- The number of matchers that are declared and not in a chain. -/
def pending (matchers : Matchers) (chain : List String) : Nat :=
  (matchers.names.filter fun name => !chain.contains name).length

/-- A declared name that joins the chain is no longer pending. -/
theorem pending_lt {matchers : Matchers} {chain : List String} {name : String} {p : Pipeline}
    (hp : matchers.get? name = some p) (hc : name ∉ chain) :
    matchers.pending (chain ++ [name]) < matchers.pending chain := by
  have hm : name ∈ matchers.names := Fields.get?_isSome.1 (by simp [hp])
  unfold pending
  generalize matchers.names = names at hm
  induction names with
  | nil => simp at hm
  | cons other rest ih =>
    have hle : (rest.filter fun n => !(chain ++ [name]).contains n).length ≤
        (rest.filter fun n => !chain.contains n).length := by
      rw [← List.countP_eq_length_filter, ← List.countP_eq_length_filter]
      refine List.countP_mono_left fun n _ h => ?_
      simp only [List.contains_append, Bool.not_or, Bool.and_eq_true] at h
      exact h.1
    by_cases ho : other = name
    · subst ho
      simp [hc]
      simpa using Nat.lt_succ_of_le hle
    · have := ih ((List.mem_cons.1 hm).resolve_left (Ne.symm ho))
      by_cases hco : other ∈ chain <;> simp_all

/-- The value of a matcher; `chain` holds the matchers that are being run, outermost first. -/
def resolveIn (matchers : Matchers) (document : Value) (chain : List String) (name : String) :
    Resolving Value := fun session =>
  match session.resolved.get? name with
  | some v => (.ok v, session)
  | none =>
    if _hc : name ∈ chain then (.error (.cycle (chain ++ [name])), session)
    else
      match _hp : matchers.get? name with
      | none => (.error (.unknownMatcher name), session)
      | some pipeline =>
        match pipeline.run (fun other => resolveIn matchers document (chain ++ [name]) other)
            document (session.start name) with
        | (.ok v, session) => (.ok v, session.finish name v)
        | (.error e, session) => (.error e, session.abandon name)
termination_by matchers.pending chain
decreasing_by exact pending_lt _hp _hc

/-- Resolves one matcher, after those that it references. -/
def resolve (matchers : Matchers) (document : Value) (name : String) : Resolving Value :=
  matchers.resolveIn document [] name

/-- Resolves every matcher by itself: one that fails leaves the others alone. -/
def resolveEach (matchers : Matchers) (document : Value) :
    StateM Session (List (String × Except EvalError Value)) :=
  matchers.names.mapM fun name => do return (name, ← (matchers.resolve document name).run)

/-- The place at which a matcher was declared. -/
def place? (matchers : Matchers) (name : String) : Option Nat := matchers.names.idxOf? name

/-- Whether a name was declared no later than another; one that was not declared comes first. -/
def noLater (matchers : Matchers) (name other : String) : Bool :=
  match matchers.place? name, matchers.place? other with
  | none, _ => true
  | some _, none => false
  | some i, some j => i ≤ j

/-- Values by name, sorted by the places at which their matchers were declared. -/
def arrange (matchers : Matchers) (values : Fields Value) : Fields Value :=
  values.mergeSort fun entry other => matchers.noLater entry.1 other.1

/-- Resolves every matcher, up to the first that fails; what the session remembers then is given in
the order of declaration. -/
def resolveAll (matchers : Matchers) (document : Value) : Resolving (Fields Value) := do
  matchers.names.forM fun name => discard (matchers.resolve document name)
  return matchers.arrange (← get).resolved

/-- Resolves every matcher in a session of its own. -/
def evaluate (matchers : Matchers) (document : Value) : Except EvalError (Fields Value) :=
  (matchers.resolveAll document Session.empty).1

end Matchers

end DocMatch
