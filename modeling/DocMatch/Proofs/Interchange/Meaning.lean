import DocMatch.Proofs.Interchange.Form

/-!
What a tree stands for, part by part. A list has as many items as its array, and a pipeline is its
stage and the stages of the pipeline after it.

Whatever a tree stands for can be encoded, and its own tree is no deeper: nulls and fields of other
names are left out, and all that is put in is the number of an operator.
-/

namespace DocMatch

namespace Json

variable {α : Type}

/-! ### Items -/

theorem mapM_eq_some_iff {view : Json → Option α} {js : List Json} {as : List α} :
    js.mapM view = some as ↔ js.map view = as.map some := by
  induction js generalizing as with
  | nil => cases as <;> simp
  | cons j js ih =>
    cases as with
    | nil => cases hj : view j <;> cases hjs : js.mapM view <;> simp [hj, hjs]
    | cons a as =>
      cases hj : view j with
      | none => simp [hj]
      | some b => cases hjs : js.mapM view <;> simp_all

theorem length_of_mapM {view : Json → Option α} {js : List Json} {as : List α}
    (h : js.mapM view = some as) : js.length = as.length := by
  simpa using congrArg List.length (mapM_eq_some_iff.1 h)

theorem exists_of_mem_mapM {view : Json → Option α} {js : List Json} {as : List α}
    (h : js.mapM view = some as) {a : α} (ha : a ∈ as) : ∃ k ∈ js, view k = some a := by
  have hmem : some a ∈ js.map view := by
    rw [mapM_eq_some_iff.1 h]
    exact List.mem_map_of_mem ha
  exact List.mem_map.1 hmem

theorem length_itemsAt {view : Json → Option α} {j : Json} {name : String} {as : List α}
    (h : (j.field? name).bind (list? view) = some as) : (j.itemsAt name).length = as.length := by
  obtain ⟨k, hk, hlist⟩ := Option.bind_eq_some_iff.1 h
  obtain ⟨js, hjs, hmap⟩ := Option.bind_eq_some_iff.1 hlist
  rw [itemsAt_of_field? hk, hjs]
  exact length_of_mapM hmap

/-! ### Parts -/

theorem number?_eq_some_iff {j : Json} {l : Literal} :
    j.number? = some l ↔ j.literal? = some l ∧ (Argument.literal l).IsEncodable := by
  rw [number?, Option.filter_eq_some_iff, decide_eq_true_iff]

theorem laterStages?_eq_elim (ms : List (String × Json)) :
    laterStages? ms = (Fields.get? "pipe" ms).elim (some []) fun k =>
      if k.isNull then some [] else (pipeline? k).map Pipeline.stages := by
  induction ms with
  | nil => rfl
  | cons m ms ih =>
    rw [laterStages?, Fields.get?, ih]
    split <;> rfl

/-- What a record stands for as a pipeline. -/
theorem pipeline?_eq_some_iff {j : Json} (hj : j.IsRecord) {first : Stage} {rest : List Stage} :
    j.pipeline? = some ⟨first, rest⟩ ↔ (j.field? "expression").bind stage? = some first ∧
      ((j.field? "pipe").elim (some []) fun k =>
        if k.isNull then some [] else k.pipeline?.map Pipeline.stages) = some rest := by
  obtain ⟨ms, rfl, _⟩ := hj.exists_members
  rw [pipeline?, laterStages?_eq_elim, field?, field?, Json.members]
  split
  · next hfirst hrest => simp [hfirst, hrest]
  · next hnot =>
    refine ⟨nofun, fun ⟨hfirst, hrest⟩ => absurd hrest ?_⟩
    exact hnot first rest hfirst

/-! ### Depth -/

/-- Encoded items are no deeper than the items that they were read from. -/
theorem depth_encode_lt_of_list? {view : Json → Option α} {encode : α → Json} {j : Json}
    {name : String} {as : List α} (h : (j.field? name).bind (list? view) = some as)
    (hencode : ∀ k a, view k = some a → (encode a).depth ≤ k.depth) :
    (array (as.map encode)).depth < j.depth := by
  obtain ⟨k, hk, hlist⟩ := Option.bind_eq_some_iff.1 h
  obtain ⟨js, hjs, hmap⟩ := Option.bind_eq_some_iff.1 hlist
  refine Nat.lt_of_le_of_lt ?_ (depth_lt_of_field? hk)
  cases k with
  | array _ =>
    cases hjs
    refine Nat.succ_le_succ (itemsDepth_map_le fun a ha => ?_)
    obtain ⟨l, hl, hview⟩ := exists_of_mem_mapM hmap ha
    exact Nat.le_trans (hencode l a hview) (depth_le_itemsDepth hl)
  | _ => cases hjs

theorem one_le_depth_of_field? {view : Json → Option α} {j : Json} {name : String} {a : α}
    (h : (j.field? name).bind view = some a) : 1 ≤ j.depth := by
  obtain ⟨k, hk, _⟩ := Option.bind_eq_some_iff.1 h
  exact Nat.one_le_of_lt (depth_lt_of_field? hk)

theorem depth_encode_of_step? {j : Json} {s : Step} (h : j.step? = some s) :
    s.encode.depth ≤ j.depth := by
  rw [step?] at h
  split at h
  · next i hi hident =>
    cases h
    exact one_le_depth_of_field? hi
  · next name hidx hname =>
    cases h
    exact one_le_depth_of_field? hname
  · cases h

theorem isEncodable_of_argument? {j : Json} {a : Argument} (h : j.argument? = some a) :
    a.IsEncodable ∧ a.encode.depth ≤ j.depth := by
  rw [argument?] at h
  split at h
  · next l hl _ _ =>
    cases h
    obtain ⟨k, _, hk⟩ := Option.bind_eq_some_iff.1 hl
    refine ⟨(number?_eq_some_iff.1 hk).2, Nat.le_trans ?_ (one_le_depth_of_field? hl)⟩
    cases l <;> exact Nat.le_refl 1
  · next s _ hs _ =>
    cases h
    exact ⟨trivial, one_le_depth_of_field? hs⟩
  · next step rest _ _ hpath =>
    cases h
    refine ⟨List.cons_ne_nil step rest, ?_⟩
    rw [Argument.encode, depth, membersDepth, membersDepth, Nat.max_zero]
    exact depth_encode_lt_of_list? hpath fun k s => depth_encode_of_step?
  · cases h

theorem isEncodable_of_stage? {j : Json} {st : Stage} (h : j.stage? = some st) :
    st.IsEncodable ∧ st.encode.depth ≤ j.depth := by
  have hargs : (j.field? "args").bind (list? argument?) = some st.arguments := by
    rw [stage?] at h
    split at h
    · next hargs => cases h; exact hargs
    · next hargs => cases h; exact hargs
    · cases h
  constructor
  · intro a ha
    obtain ⟨k, _, hlist⟩ := Option.bind_eq_some_iff.1 hargs
    obtain ⟨js, _, hmap⟩ := Option.bind_eq_some_iff.1 hlist
    obtain ⟨l, _, hview⟩ := exists_of_mem_mapM hmap ha
    exact (isEncodable_of_argument? hview).1
  · have hdepth := depth_encode_lt_of_list? hargs fun k a ha => (isEncodable_of_argument? ha).2
    rw [Stage.encode, depth, membersDepth, membersDepth, membersDepth, Nat.max_zero]
    exact Nat.succ_le_of_lt (Nat.max_lt.2 ⟨Nat.zero_lt_of_lt hdepth, hdepth⟩)

theorem isEncodable_of_pipeline? {j : Json} (hj : j.IsPipelineForm) {p : Pipeline}
    (h : j.pipeline? = some p) : p.IsEncodable ∧ p.encode.depth ≤ j.depth := by
  obtain ⟨first, rest⟩ := p
  induction hj generalizing first rest with
  | @last j k hrecord hfirst hform hpipe =>
    obtain ⟨hstage, hrest⟩ := (pipeline?_eq_some_iff hrecord).1 h
    rw [hfirst] at hstage
    obtain ⟨hencodable, hdepth⟩ := isEncodable_of_stage? hstage
    obtain rfl : rest = [] := by
      rw [gives_eq_false_iff] at hpipe
      cases hl : j.field? "pipe" with
      | none => rw [hl] at hrest; exact (Option.some.inj hrest).symm
      | some l => rw [hl, hpipe l hl] at hrest; exact (Option.some.inj hrest).symm
    refine ⟨List.forall_mem_singleton.2 hencodable, ?_⟩
    rw [Pipeline.encode, Pipeline.encodeStages, depth, membersDepth, membersDepth, Nat.max_zero]
    exact Nat.succ_le_of_lt (Nat.lt_of_le_of_lt hdepth (depth_lt_of_field? hfirst))
  | @next j k l hrecord hfirst hform hpipe hl ih =>
    obtain ⟨hstage, hrest⟩ := (pipeline?_eq_some_iff hrecord).1 h
    rw [hfirst] at hstage
    obtain ⟨hencodable, hdepth⟩ := isEncodable_of_stage? hstage
    obtain ⟨⟨next, more⟩, hq, rfl⟩ : ∃ q, l.pipeline? = some q ∧ rest = q.stages := by
      cases l with
      | object _ =>
        rw [hpipe] at hrest
        obtain ⟨q, hq, hstages⟩ := Option.map_eq_some_iff.1 hrest
        exact ⟨q, hq, hstages.symm⟩
      | _ => cases hl with
        | last hrecord => cases hrecord.isObject
        | next hrecord => cases hrecord.isObject
    obtain ⟨hmore, hmoredepth⟩ := ih next more hq
    refine ⟨List.forall_mem_cons.2 ⟨hencodable, hmore⟩, ?_⟩
    rw [Pipeline.encode, Pipeline.stages, Pipeline.encodeStages, depth, membersDepth, membersDepth,
      membersDepth, Nat.max_zero]
    have hk := depth_lt_of_field? hfirst
    have hl := depth_lt_of_field? hpipe
    exact Nat.succ_le_of_lt
      (Nat.max_lt.2 ⟨Nat.lt_of_le_of_lt hdepth hk, Nat.lt_of_le_of_lt hmoredepth hl⟩)

end Json

end DocMatch
