import DocMatch.Proofs.Resolve.Answers

/-!
Values in a chain. Without a memory the value of a matcher depends on nothing but the chain of
matchers that are being run: it is what the pipeline makes of the values in the longer chain, or the
error of a cycle as soon as a name comes a second time.

    chain []        a  ──▶  b  ──▶  c  ──▶  a      the cycle a, b, c, a
    chain [c]       a  ──▶  b  ──▶  c              the cycle c, a, b, c
    chain [d]       a  ──▶  b  ──▶  c  ──▶  a      the cycle d, a, b, c, a

A longer chain finds more cycles, and changes nothing else.
-/

namespace DocMatch

/-- The error of a cycle. -/
def EvalError.IsCycle : EvalError → Prop
  | .cycle _ => True
  | _ => False

/-- A result that is not the error of a cycle. -/
def Settled (r : Except EvalError Value) : Prop := OkOr (¬ ·.IsCycle) r

theorem not_settled_iff {r : Except EvalError Value} :
    ¬ Settled r ↔ ∃ chain, r = .error (.cycle chain) := by
  constructor
  · intro h
    match r with
    | .ok v => exact absurd (okOr_ok v) h
    | .error (.cycle chain) => exact ⟨chain, rfl⟩
    | .error .leftArgumentNotPath | .error (.walk _) | .error (.unsupportedLiteral ..)
    | .error .reservedWord | .error (.unknownMatcher _) | .error (.notImplemented _) =>
      exact absurd (okOr_error.2 id) h
  · rintro ⟨chain, rfl⟩ h
    exact okOr_error.1 h trivial

namespace Matchers

variable {matchers : Matchers} {document : Value} {chain : List String} {name : String}

/-- What holds in a chain if it holds in every chain that is one declared name longer holds in every
chain. -/
theorem chain_induction (matchers : Matchers) {motive : List String → Prop}
    (step : ∀ chain, (∀ name p, matchers.get? name = some p → name ∉ chain →
      motive (chain ++ [name])) → motive chain) (chain : List String) : motive chain :=
  step chain fun name _ _ _ => chain_induction matchers step (chain ++ [name])
termination_by matchers.pending chain
decreasing_by exact pending_lt ‹_› ‹_›

/-- The value of a matcher in a chain when nothing is remembered. -/
def valueIn (matchers : Matchers) (document : Value) (chain : List String) (name : String) :
    Except EvalError Value :=
  if _hc : name ∈ chain then .error (.cycle (chain ++ [name]))
  else
    match _hp : matchers.get? name with
    | none => .error (.unknownMatcher name)
    | some p => p.run (fun other => valueIn matchers document (chain ++ [name]) other) document
termination_by matchers.pending chain
decreasing_by exact pending_lt _hp _hc

theorem valueIn_of_mem (hc : name ∈ chain) :
    matchers.valueIn document chain name = .error (.cycle (chain ++ [name])) := by
  rw [valueIn, dif_pos hc]

theorem valueIn_of_unknown (hc : name ∉ chain) (hp : matchers.get? name = none) :
    matchers.valueIn document chain name = .error (.unknownMatcher name) := by
  rw [valueIn, dif_neg hc]
  split
  · rfl
  · simp_all

theorem valueIn_of_declared (hc : name ∉ chain) {p : Pipeline}
    (hp : matchers.get? name = some p) :
    matchers.valueIn document chain name =
      p.run (matchers.valueIn document (chain ++ [name])) document := by
  rw [valueIn, dif_neg hc]
  split
  · simp_all
  · simp_all

/-- A result in a chain that is not a cycle is the result in every smaller chain. -/
theorem valueIn_of_subset {longer : List String} (hsub : chain ⊆ longer) (name : String)
    (h : Settled (matchers.valueIn document longer name)) :
    matchers.valueIn document chain name = matchers.valueIn document longer name := by
  induction longer using chain_induction matchers generalizing chain name with
  | step longer ih =>
    -- a name in the longer chain would have been a cycle there, so it is in neither chain
    have hlonger : name ∉ longer := fun hc => h _ (valueIn_of_mem hc) trivial
    have hchain : name ∉ chain := fun hc => hlonger (hsub hc)
    cases hp : matchers.get? name with
    | none => rw [valueIn_of_unknown hchain hp, valueIn_of_unknown hlonger hp]
    | some p =>
      have hsub' : chain ++ [name] ⊆ longer ++ [name] := by
        intro x hx
        exact List.mem_append.2 ((List.mem_append.1 hx).imp_left fun hxc => hsub hxc)
      rw [valueIn_of_declared hlonger hp] at h ⊢
      rw [valueIn_of_declared hchain hp]
      exact Pipeline.run_eq_of_agree (ih name p hp hlonger hsub') h

/-- A matcher that is part of no cycle does not notice one that is, if that comes into the chain. -/
theorem valueIn_of_cyclic {cyclic : String}
    (hcyclic : ¬ Settled (matchers.valueIn document [] cyclic)) (name : String)
    (h : Settled (matchers.valueIn document chain name)) :
    matchers.valueIn document (cyclic :: chain) name = matchers.valueIn document chain name := by
  induction chain using chain_induction matchers generalizing name with
  | step chain ih =>
    have hchain : name ∉ chain := fun hc => h _ (valueIn_of_mem hc) trivial
    have hne : name ≠ cyclic := by
      -- settled in this chain, it would be settled in the empty one too
      rintro rfl
      rw [← valueIn_of_subset (List.nil_subset chain) name h] at h
      exact hcyclic h
    have hlonger : name ∉ cyclic :: chain := by simp [hne, hchain]
    cases hp : matchers.get? name with
    | none => rw [valueIn_of_unknown hchain hp, valueIn_of_unknown hlonger hp]
    | some p =>
      rw [valueIn_of_declared hchain hp] at h ⊢
      rw [valueIn_of_declared hlonger hp]
      exact Pipeline.run_eq_of_agree (ih name p hp hchain) h

end Matchers

end DocMatch
