import DocMatch.Proofs.Resolve.Resolution
import Mathlib

/-!
Sessions from beginning to end. A session takes calls in any order: one name at a time, or all of
them at once. Its memory makes no difference to the replies: each is what a session of its own would
give. What it makes a difference to is the work, and the memory tells what has been done.

    resolve a       error       remembers c                 a needs c, then fails
    resolve b       value       remembers c, b              b needs c
    resolveEach     a error, b value, c value               remembers c, b
-/

namespace DocMatch

/-- A call that a session takes. -/
inductive Call
  | resolve (name : String)
  | resolveEach

/-- What a call gives back: a result, or one for every declared name. -/
inductive Reply
  | result (r : Except EvalError Value)
  | results (rs : List (String × Except EvalError Value))

namespace Matchers

/-- Takes a call. -/
def call (matchers : Matchers) (document : Value) : Call → StateM Session Reply
  | .resolve name => do return .result (← (matchers.resolve document name).run)
  | .resolveEach => do return .results (← matchers.resolveEach document)

/-- Takes one call after the other. -/
def callAll (matchers : Matchers) (document : Value) (calls : List Call) :
    StateM Session (List Reply) :=
  calls.mapM (matchers.call document)

/-- The session that has taken some calls, and none before them. -/
def sessionAfter (matchers : Matchers) (document : Value) (calls : List Call) : Session :=
  (matchers.callAll document calls Session.empty).2

/-- What resolving a name gives in a session of its own. -/
def fresh (matchers : Matchers) (document : Value) (name : String) : Except EvalError Value :=
  (matchers.resolve document name Session.empty).1

/-- The reply to a call when every name is resolved in a session of its own. -/
def freshReply (matchers : Matchers) (document : Value) : Call → Reply
  | .resolve name => .result (matchers.fresh document name)
  | .resolveEach => .results (matchers.names.map fun name => (name, matchers.fresh document name))

end Matchers

namespace Yields

variable {matchers : Matchers} {document : Value} {chain : List String} {α β : Type}

theorem pure (a : α) : Yields matchers document chain (Pure.pure a : StateM Session α) a :=
  fun _ hs => ⟨rfl, hs, List.prefix_rfl⟩

theorem bind {action : StateM Session α} {next : α → StateM Session β} {a : α} {b : β}
    (h : Yields matchers document chain action a)
    (hnext : Yields matchers document chain (next a) b) :
    Yields matchers document chain (action >>= next) b := by
  intro session hs
  have hfirst := h session hs
  have hrest := hnext _ hfirst.sound
  have heq : (action >>= next) session = next a (action session).2 := by
    rw [← hfirst.result]
    rfl
  rw [heq]
  exact ⟨hrest.result, hrest.sound, hfirst.grows.trans hrest.grows⟩

/-- Actions that yield one after the other yield together. -/
theorem mapM {action : α → StateM Session β} {result : α → β}
    (h : ∀ a, Yields matchers document chain (action a) (result a)) (as : List α) :
    Yields matchers document chain (as.mapM action) (as.map result) := by
  induction as with
  | nil => exact pure []
  | cons a as ih =>
    rw [List.mapM_cons]
    exact (h a).bind (ih.bind (pure _))

end Yields

namespace Matchers

variable (matchers : Matchers) (document : Value)

theorem fresh_eq_valueIn (name : String) :
    matchers.fresh document name = matchers.valueIn document [] name :=
  (resolveIn_finds matchers document [] name Session.empty Sound.empty).result

theorem resolve_yields (name : String) :
    Yields matchers document [] (matchers.resolve document name).run
      (matchers.fresh document name) := by
  rw [fresh_eq_valueIn]
  exact fun session hs => (resolveIn_finds matchers document [] name session hs).toOutcome

/-- A call yields its fresh reply. -/
theorem call_yields (call : Call) :
    Yields matchers document [] (matchers.call document call)
      (matchers.freshReply document call) := by
  cases call with
  | resolve name => exact (matchers.resolve_yields document name).bind (Yields.pure _)
  | resolveEach =>
    refine Yields.bind (Yields.mapM (fun name => ?_) matchers.names) (Yields.pure _)
    exact (matchers.resolve_yields document name).bind (Yields.pure _)

theorem callAll_yields (calls : List Call) :
    Yields matchers document [] (matchers.callAll document calls)
      (calls.map (matchers.freshReply document)) :=
  Yields.mapM (matchers.call_yields document) calls

theorem sound_sessionAfter (calls : List Call) :
    Sound matchers document [] (matchers.sessionAfter document calls) :=
  (matchers.callAll_yields document calls Session.empty Sound.empty).sound

/-- History independence: whatever a session has been asked for before, in whatever order and with
whatever success, it replies to every call as if each name were resolved in a session of its own. -/
theorem replies_fresh (calls : List Call) :
    (matchers.callAll document calls Session.empty).1 =
      calls.map (matchers.freshReply document) :=
  (matchers.callAll_yields document calls Session.empty Sound.empty).result

/-- After every call, whether it succeeded or not: no run is open; what was remembered still is, at
its place; what is remembered is declared, and once only; and whatever a remembered matcher refers
to is remembered before it. -/
theorem session_invariant (calls : List Call) (call : Call) :
    let before := matchers.sessionAfter document calls
    let after := (matchers.call document call before).2
    after.inProgress = [] ∧
    before.resolved <+: after.resolved ∧
    (after.resolved.names.Nodup ∧ ∀ name ∈ after.resolved.names, name ∈ matchers.names) ∧
    ∀ (i : Nat) (name : String) (v : Value), after.resolved[i]? = some (name, v) →
      ∀ other, matchers.RefersTo name other →
        ∃ j < i, ∃ u, after.resolved[j]? = some (other, u) := by
  intro before after
  have hbefore : Sound matchers document [] before := matchers.sound_sessionAfter document calls
  have hcall := matchers.call_yields document call before hbefore
  have hground : Grounded matchers document after.resolved := hcall.sound.grounded
  refine ⟨hcall.sound.progress, hcall.grows, ⟨hground.nodup_names, ?_⟩, ?_⟩
  · exact fun name hname => hground.declared hname
  · exact fun i name v hi other href => hground.reference hi href

/-- A matcher that refers to a later one. -/
def forward : Matchers :=
  [("a", ⟨⟨.filter, .path [.key referenceWord, .key "b", .key "y"], none⟩, []⟩),
    ("b", ⟨⟨.replace, .path [.key "y"], none⟩, []⟩)]

/-- A document with two fields. -/
def twoFields : Value := .mapping [("x", .null), ("y", .string "z")]

/-- A call that fails and one that succeeds leave the later matcher remembered first. -/
theorem session_invariant_forward :
    let before := forward.sessionAfter twoFields [.resolve "c"]
    let after := (forward.call twoFields (.resolve "a") before).2
    after.resolved[1]? = some ("a", .string "z") ∧
      ∃ j < 1, ∃ u, after.resolved[j]? = some ("b", u) := by
  have hinv := session_invariant forward twoFields [.resolve "c"] (.resolve "a")
  have hab : forward.RefersTo "a" "b" := ⟨_, rfl, by decide⟩
  have ha : (forward.call twoFields (.resolve "a")
      (forward.sessionAfter twoFields [.resolve "c"])).2.resolved[1]? =
        some ("a", .string "z") := by cbv
  exact ⟨ha, hinv.2.2.2 1 "a" _ ha "b" hab⟩

end Matchers

end DocMatch
