import DocMatch.Proofs.Resolve.Sound

/-!
Resolution with a memory. Resolving goes down a chain, runs each matcher there at most once, and
serves the rest from memory. In sound sessions this is the lookup that finds the values in the
chain.
-/

namespace DocMatch.Matchers

variable {matchers : Matchers} {document : Value} {chain : List String} {name : String}
  {session : Session}

theorem resolveIn_of_remembered {v : Value} (hv : session.resolved.get? name = some v) :
    matchers.resolveIn document chain name session = (.ok v, session) := by
  rw [resolveIn, hv]

theorem resolveIn_of_mem (hv : session.resolved.get? name = none) (hc : name ∈ chain) :
    matchers.resolveIn document chain name session =
      (.error (.cycle (chain ++ [name])), session) := by
  rw [resolveIn, hv]
  exact dif_pos hc

theorem resolveIn_of_unknown (hv : session.resolved.get? name = none) (hc : name ∉ chain)
    (hp : matchers.get? name = none) :
    matchers.resolveIn document chain name session = (.error (.unknownMatcher name), session) := by
  rw [resolveIn, hv]
  simp only [dif_neg hc]
  split
  · rfl
  · simp_all

theorem resolveIn_of_declared (hv : session.resolved.get? name = none) (hc : name ∉ chain)
    {p : Pipeline} (hp : matchers.get? name = some p) :
    matchers.resolveIn document chain name session =
      match p.run (matchers.resolveIn document (chain ++ [name])) document (session.start name) with
      | (.ok v, session) => (.ok v, session.finish name v)
      | (.error e, session) => (.error e, session.abandon name) := by
  rw [resolveIn, hv]
  simp only [dif_neg hc]
  split
  · simp_all
  · rename_i q hq
    cases hp.symm.trans hq
    rfl

/-- A matcher is run in the longer chain, and leaves it with its value or without. -/
theorem resolveIn_found_of_declared
    (ih : Finds matchers document (chain ++ [name]) (matchers.resolveIn document (chain ++ [name])))
    (hs : Sound matchers document chain session) (hv : session.resolved.get? name = none)
    (hc : name ∉ chain) {p : Pipeline} (hp : matchers.get? name = some p) :
    Sound.Found matchers document chain name session
      (matchers.resolveIn document chain name session) := by
  have hname : name ∉ session.resolved.names := by
    rw [← Fields.get?_isSome, hv]
    nofun
  have hrun := ih.run_yields p document _ (hs.start hname)
  have hvalue : matchers.valueIn document chain name = _ := valueIn_of_declared hc hp
  rw [resolveIn_of_declared hv hc hp]
  cases hout : p.run (matchers.resolveIn document (chain ++ [name])) document
      (session.start name) with
  | mk r after =>
    rw [hout] at hrun
    cases r with
    | ok v =>
      have hknown := ih.run_known (hs.start hname) (congrArg Prod.fst hout)
      rw [hout] at hknown
      obtain ⟨hsound, hput⟩ := hrun.sound.finish hc hp hknown
      refine ⟨⟨hrun.result.trans hvalue.symm, hsound, ?_⟩, fun w hw => ?_⟩
      · rw [hput]
        exact hrun.grows.trans (List.prefix_append ..)
      · cases hw
        exact Fields.get?_put_self ..
    | error e => exact ⟨⟨hrun.result.trans hvalue.symm, hrun.sound.abandon, hrun.grows⟩, nofun⟩

/-- In sound sessions resolving finds the values in the chain. -/
theorem resolveIn_finds (matchers : Matchers) (document : Value) (chain : List String) :
    Finds matchers document chain (matchers.resolveIn document chain) := by
  induction chain using chain_induction matchers with
  | step chain ih =>
    intro name session hs
    cases hv : session.resolved.get? name with
    | some v =>
      rw [resolveIn_of_remembered hv]
      refine ⟨⟨(hs.grounded.valueIn_eq hs.apart hv).symm, hs, List.prefix_rfl⟩, fun w hw => ?_⟩
      cases hw
      exact hv
    | none =>
      by_cases hc : name ∈ chain
      · rw [resolveIn_of_mem hv hc]
        exact ⟨⟨(valueIn_of_mem hc).symm, hs, List.prefix_rfl⟩, nofun⟩
      · cases hp : matchers.get? name with
        | none =>
          rw [resolveIn_of_unknown hv hc hp]
          exact ⟨⟨(valueIn_of_unknown hc hp).symm, hs, List.prefix_rfl⟩, nofun⟩
        | some p => exact resolveIn_found_of_declared (ih name p hp hc) hs hv hc hp

end DocMatch.Matchers
