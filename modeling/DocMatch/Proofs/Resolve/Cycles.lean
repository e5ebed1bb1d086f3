import DocMatch.Proofs.Resolve.History

/-!
Cycles. The error of a cycle carries a walk in the reference graph: it begins with the name that was
asked for, takes one edge after the other without coming to a name twice, and ends at the first name
that it has been at before. Conversely nothing from where such a walk is possible ever has a value,
nor anything from where an undeclared name or a misused word can be reached.

    resolve a       a ──▶ b ──▶ c ──▶ d           the chain a, b, c, d, b
                          ▲           │
                          └───────────┘
-/

namespace DocMatch

/-- A chain of declared matchers, each once, that refer to the next and the last of them to a
name. -/
structure Trail (matchers : Matchers) (chain : List String) (name : String) : Prop where
  simple : chain.Nodup
  declared : ∀ x ∈ chain, x ∈ matchers.names
  linked : (chain ++ [name]).IsChain matchers.RefersTo

/-- A walk in the reference graph that passes declared names, each once, and ends at one of them. -/
structure Lasso (matchers : Matchers) (walk : List String) : Prop where
  linked : walk.IsChain matchers.RefersTo
  declared : ∀ x ∈ walk, x ∈ matchers.names
  simple : walk.dropLast.Nodup
  closes : ∃ x ∈ walk.dropLast, walk.getLast? = some x

namespace Trail

variable {matchers : Matchers} {chain : List String} {name other : String}

theorem nil (matchers : Matchers) (name : String) : Trail matchers [] name :=
  ⟨List.nodup_nil, nofun, List.IsChain.singleton name⟩

/-- A trail goes on from a new name to one that it refers to. -/
theorem extend (h : Trail matchers chain name) (hc : name ∉ chain) {p : Pipeline}
    (hp : matchers.get? name = some p) (href : p.RefersTo other) :
    Trail matchers (chain ++ [name]) other := by
  have hdeclared : name ∈ matchers.names := Fields.mem_names_of_get? hp
  refine ⟨?_, ?_, ?_⟩
  · rw [← List.concat_eq_append]
    exact h.simple.concat hc
  · exact List.forall_mem_append.2 ⟨h.declared, List.forall_mem_singleton.2 hdeclared⟩
  · refine List.isChain_append.2 ⟨h.linked, List.IsChain.singleton other, fun x hx y hy => ?_⟩
    rw [List.getLast?_concat] at hx
    cases hx
    cases hy
    exact ⟨p, hp, href⟩

/-- A trail to a name of its own is a lasso. -/
theorem lasso (h : Trail matchers chain name) (hc : name ∈ chain) :
    Lasso matchers (chain ++ [name]) := by
  have hdeclared : name ∈ matchers.names := h.declared name hc
  refine ⟨h.linked, ?_, ?_, name, ?_, List.getLast?_concat⟩
  · exact List.forall_mem_append.2 ⟨h.declared, List.forall_mem_singleton.2 hdeclared⟩
  · rw [List.dropLast_concat]
    exact h.simple
  · rwa [List.dropLast_concat]

end Trail

namespace Matchers

variable {matchers : Matchers} {document : Value} {chain : List String} {name : String}

/-- What goes on from a trail and meets a cycle has walked a lasso. -/
theorem lasso_of_valueIn (htrail : Trail matchers chain name) {walk : List String}
    (h : matchers.valueIn document chain name = .error (.cycle walk)) :
    chain ++ [name] <+: walk ∧ Lasso matchers walk := by
  induction chain using chain_induction matchers generalizing name with
  | step chain ih =>
    by_cases hc : name ∈ chain
    · rw [valueIn_of_mem hc] at h
      cases h
      exact ⟨List.prefix_rfl, htrail.lasso hc⟩
    · cases hp : matchers.get? name with
      | none =>
        rw [valueIn_of_unknown hc hp] at h
        cases h
      | some p =>
        rw [valueIn_of_declared hc hp] at h
        obtain ⟨other, href, hother⟩ := Pipeline.of_run_cycle h
        obtain ⟨hpre, hlasso⟩ := ih name p hp hc (htrail.extend hc hp href) hother
        exact ⟨(List.prefix_append ..).trans hpre, hlasso⟩

end Matchers

namespace Grounded

variable {matchers : Matchers} {document : Value} {remembered : Fields Value}

/-- What a remembered matcher reaches was remembered no later. -/
theorem reached (h : Grounded matchers document remembered) {name other : String}
    (hreach : Relation.ReflTransGen matchers.RefersTo name other) {i : Nat} {v : Value}
    (hi : remembered[i]? = some (name, v)) :
    ∃ j ≤ i, ∃ u, remembered[j]? = some (other, u) := by
  induction hreach with
  | refl => exact ⟨i, Nat.le_refl i, v, hi⟩
  | tail _ href ih =>
    obtain ⟨j, hji, u, hj⟩ := ih
    obtain ⟨k, hkj, w, hk⟩ := h.reference hj href
    exact ⟨k, by omega, w, hk⟩

/-- No remembered matcher reaches itself. -/
theorem acyclic (h : Grounded matchers document remembered) {name : String}
    (hcycle : Relation.TransGen matchers.RefersTo name name) (i : Nat) (v : Value) :
    remembered[i]? ≠ some (name, v) := by
  induction i using Nat.strong_induction_on generalizing v with
  | _ i ih =>
    intro hi
    obtain ⟨next, href, hreach⟩ := Relation.TransGen.head'_iff.1 hcycle
    obtain ⟨j, hji, u, hj⟩ := h.reference hi href
    obtain ⟨k, hkj, w, hk⟩ := h.reached hreach hj
    exact ih k (by omega) w hk

end Grounded

namespace Matchers

variable (matchers : Matchers) (document : Value)

/-- A matcher that has a value is remembered in some sound session. -/
theorem exists_remembered {name : String} {v : Value} (h : matchers.fresh document name = .ok v) :
    ∃ remembered, Grounded matchers document remembered ∧
      ∃ i : Nat, remembered[i]? = some (name, v) := by
  have hfound := resolveIn_finds matchers document [] name Session.empty Sound.empty
  refine ⟨_, hfound.sound.grounded, ?_⟩
  exact List.mem_iff_getElem?.1 (Fields.mem_of_get? (hfound.remembers v h))

/-- A matcher that has a value reaches no cycle, no undeclared name and no misused word. -/
theorem reaches_of_fresh_ok {name other : String} {v : Value}
    (h : matchers.fresh document name = .ok v)
    (hreach : Relation.ReflTransGen matchers.RefersTo name other) :
    ¬ Relation.TransGen matchers.RefersTo other other ∧ other ∈ matchers.names ∧
      ¬ matchers.Misuses other := by
  obtain ⟨remembered, hground, i, hi⟩ := matchers.exists_remembered document h
  obtain ⟨j, _, u, hj⟩ := hground.reached hreach hi
  obtain ⟨p, hp, hrun⟩ := hground.entry hj
  refine ⟨fun hcycle => hground.acyclic hcycle j u hj, ?_, ?_⟩
  · exact Fields.mem_names_of_get? hp
  · rintro ⟨q, hq, hmisuse⟩
    cases hp.symm.trans hq
    exact Pipeline.not_misuses_of_run hrun hmisuse

/-- Cycles are reported as they are, and never overlooked. In whatever session a name is resolved:
if it fails with a cycle, the error tells a lasso of the reference graph that begins with the name;
and if a cycle, an undeclared name or a misuse of the reserved word can be reached from the name, it
has no value. -/
theorem cycle_detection (calls : List Call) (name : String) :
    let found := (matchers.resolve document name (matchers.sessionAfter document calls)).1
    (∀ walk, found = .error (.cycle walk) →
      walk.head? = some name ∧ 2 ≤ walk.length ∧ Lasso matchers walk) ∧
    ∀ other, Relation.ReflTransGen matchers.RefersTo name other →
      Relation.TransGen matchers.RefersTo other other ∨ other ∉ matchers.names ∨
          matchers.Misuses other →
        ∀ v, found ≠ .ok v := by
  intro found
  have hfound : found = matchers.fresh document name :=
    (matchers.resolve_yields document name _ (matchers.sound_sessionAfter document calls)).result
  refine ⟨fun walk hwalk => ?_, fun other hreach hbad v hv => ?_⟩
  · rw [hfound, fresh_eq_valueIn] at hwalk
    obtain ⟨⟨rest, rfl⟩, hlasso⟩ := lasso_of_valueIn (Trail.nil matchers name) hwalk
    refine ⟨rfl, ?_, hlasso⟩
    obtain ⟨x, hx, _⟩ := hlasso.closes
    cases rest with
    | nil => cases hx
    | cons y rest => simp
  · obtain ⟨hacyclic, hdeclared, huse⟩ :=
      matchers.reaches_of_fresh_ok document (hfound.symm.trans hv) hreach
    rcases hbad with hcycle | hunknown | hmisuse
    · exact hacyclic hcycle
    · exact hunknown hdeclared
    · exact huse hmisuse

/-- Two matchers in a cycle, and one that leads there. -/
def ring : Matchers :=
  [("a", ⟨⟨.filter, .path [.key referenceWord, .key "b", .key "x"], none⟩, []⟩),
    ("b", ⟨⟨.filter, .path [.key "y"], some (.path [.key referenceWord, .key "c"])⟩, []⟩),
    ("c", ⟨⟨.replace, .path [.key referenceWord, .key "b"], none⟩, []⟩)]

/-- After other calls, and from outside the cycle. -/
theorem cycle_detection_ring :
    (ring.resolve .null "a" (ring.sessionAfter .null [.resolve "c", .resolveEach])).1 =
        .error (.cycle ["a", "b", "c", "b"]) ∧
      Lasso ring ["a", "b", "c", "b"] ∧
      ∀ v, (ring.resolve .null "a" (ring.sessionAfter .null [.resolve "c", .resolveEach])).1 ≠
        .ok v := by
  have hab : ring.RefersTo "a" "b" := ⟨_, rfl, by decide⟩
  have hbc : ring.RefersTo "b" "c" := ⟨_, rfl, by decide⟩
  have hcb : ring.RefersTo "c" "b" := ⟨_, rfl, by decide⟩
  have hdetect := cycle_detection ring .null [.resolve "c", .resolveEach] "a"
  have hcycle : (ring.resolve .null "a" (ring.sessionAfter .null [.resolve "c", .resolveEach])).1 =
      .error (.cycle ["a", "b", "c", "b"]) := by cbv
  refine ⟨hcycle, (hdetect.1 _ hcycle).2.2, hdetect.2 "b" (.single hab) (Or.inl ?_)⟩
  exact .tail (.single hbc) hcb

end Matchers

end DocMatch
