import DocMatch.Interchange.Decode
import DocMatch.Proofs.Fields

/-!
Decoding what was encoded. Every stage, argument and step comes back as it was, as long as the tree
is not nested deeper than the limit; and if it is, that is what is wrong with it. The limit is spent
level by level, so each form needs exactly the depth of its own tree.

    pipeline    object > stage > … and the next stage one object further in
    stage       object > array > argument
    argument    object > (array > object)        a path; a literal has no inner array
-/

namespace DocMatch

namespace Json

mutual

/-- How deep arrays and objects are nested in a tree. -/
def depth : Json → Nat
  | array items => itemsDepth items + 1
  | object members => membersDepth members + 1
  | _ => 0

def itemsDepth : List Json → Nat
  | [] => 0
  | j :: rest => max j.depth (itemsDepth rest)

def membersDepth : List (String × Json) → Nat
  | [] => 0
  | (_, j) :: rest => max j.depth (membersDepth rest)

end

theorem itemsDepth_map_le {α : Type} {encode : α → Json} {xs : List α} {bound : Nat}
    (h : ∀ x ∈ xs, (encode x).depth ≤ bound) : itemsDepth (xs.map encode) ≤ bound := by
  induction xs with
  | nil => exact Nat.zero_le bound
  | cons x xs ih =>
    obtain ⟨hx, hxs⟩ := List.forall_mem_cons.1 h
    exact Nat.max_le.2 ⟨hx, ih hxs⟩

theorem depth_le_itemsDepth {js : List Json} {k : Json} (h : k ∈ js) : k.depth ≤ itemsDepth js := by
  induction js with
  | nil => cases h
  | cons j js ih =>
    rw [itemsDepth]
    rcases List.mem_cons.1 h with rfl | h
    · exact Nat.le_max_left _ _
    · exact Nat.le_trans (ih h) (Nat.le_max_right _ _)

theorem depth_le_membersDepth {ms : List (String × Json)} {name : String} {k : Json}
    (h : (name, k) ∈ ms) : k.depth ≤ membersDepth ms := by
  induction ms with
  | nil => cases h
  | cons m ms ih =>
    rw [membersDepth]
    rcases List.mem_cons.1 h with rfl | h
    · exact Nat.le_max_left _ _
    · exact Nat.le_trans (ih h) (Nat.le_max_right _ _)

end Json

/-- Arguments that the interchange form has: finite numbers, and paths with steps. -/
def Argument.IsEncodable : Argument → Prop
  | literal (.float x) => x.isFinite = true
  | literal _ => True
  | path p => p ≠ []

def Stage.IsEncodable (stage : Stage) : Prop := ∀ a ∈ stage.arguments, a.IsEncodable

def Pipeline.IsEncodable (p : Pipeline) : Prop := ∀ stage ∈ p.stages, stage.IsEncodable

instance : DecidablePred Argument.IsEncodable
  | .literal (.float x) => inferInstanceAs (Decidable (x.isFinite = true))
  | .literal (.integer _) | .literal (.string _) => inferInstanceAs (Decidable True)
  | .path p => inferInstanceAs (Decidable (p ≠ []))

instance (stage : Stage) : Decidable stage.IsEncodable :=
  inferInstanceAs (Decidable (∀ a ∈ stage.arguments, a.IsEncodable))

instance (p : Pipeline) : Decidable p.IsEncodable :=
  inferInstanceAs (Decidable (∀ stage ∈ p.stages, stage.IsEncodable))

namespace Decode

open Draft (ofJson ofItems ofMembers checkedLiteral)

variable {α σ : Type} {limit n m : Nat} {d : Draft}

/-! ### Decoding under a limit -/

/-- What comes of a tree of some depth: the value it stands for, unless it is too deep. -/
def upTo (limit depth : Nat) (a : α) : Decoding α :=
  if depth ≤ limit then .ok a else fail .tooDeep

theorem upTo_zero (limit : Nat) (a : α) : upTo limit 0 a = .ok a := if_pos (Nat.zero_le _)

theorem upTo_succ_succ (limit depth : Nat) (a : α) :
    upTo (limit + 1) (depth + 1) a = upTo limit depth a := by
  simp only [upTo, Nat.add_le_add_iff_right]

/-- A part without arrays and objects needs nothing. -/
theorem upTo_of_ok {r : Decoding α} {a : α} (h : r = .ok a) : r = upTo limit 0 a :=
  h.trans (upTo_zero limit a).symm

/-- Two parts of a tree need as much as the deeper one. -/
theorem bind_upTo {β : Type} {r : Decoding α} {a : α} {b : β} {next : α → Decoding β}
    (hr : r = upTo limit n a) (hnext : next a = upTo limit m b) :
    r >>= next = upTo limit (max n m) b := by
  rw [hr]
  by_cases hn : n ≤ limit
  · rw [upTo, if_pos hn]
    refine hnext.trans ?_
    simp only [upTo, Nat.max_le, hn, true_and]
  · -- the first part is too deep, and so is the whole
    rw [upTo, if_neg hn, upTo, if_neg fun hmax => hn (Nat.le_trans (Nat.le_max_left n m) hmax)]
    rfl

/-- What is done with a part at the end needs no more. -/
theorem bind_upTo_ok {β : Type} {r : Decoding α} {a : α} {b : β} {next : α → Decoding β}
    (hr : r = upTo limit n a) (hnext : next a = .ok b) : r >>= next = upTo limit n b := by
  rw [bind_upTo hr (upTo_of_ok hnext), Nat.max_zero]

/-! ### Records and arrays -/

variable {a : α} {s t : σ}

theorem once_upTo {get : σ → Option α} {set : σ → α → σ} {decode : Draft → Decoding α}
    (hnone : get s = none) (h : decode d = upTo limit n a) :
    once get set decode d s = upTo limit n (set s a) := by
  rw [once, hnone]
  exact bind_upTo_ok h rfl

theorem optional_upTo {decode : Draft → Decoding α} (hnull : d ≠ .null)
    (h : decode d = upTo limit n a) : optional decode d = upTo limit n (some a) := by
  have hmap : optional decode d = (decode d).map some := by
    cases d <;> first | rfl | exact absurd rfl hnull
  rw [hmap, h, upTo, upTo]
  split <;> rfl

theorem members_upTo {field : String → Option (Draft → σ → Decoding σ)} {name : String}
    {read : Draft → σ → Decoding σ} {rest : List (Option String × Draft)} {u : σ}
    (hfield : field name = some read) (hread : read d s = upTo limit n t)
    (hrest : members field t rest = upTo limit m u) :
    members field s ((some name, d) :: rest) = upTo limit (max n m) u := by
  simp only [members, hfield]
  exact bind_upTo hread hrest

theorem record_upTo {fields : List (String × (Draft → σ → Decoding σ))}
    {ms : List (Option String × Draft)}
    (h : ∀ inner, limit = inner + 1 → members (Fields.get? · fields) s ms = upTo inner n t) :
    record limit fields s (.object ms) = upTo limit (n + 1) t := by
  cases limit with
  | zero => rfl
  | succ inner => exact (h inner rfl).trans (upTo_succ_succ inner n t).symm

/-- An object of one field. -/
theorem record_single {fields : List (String × (Draft → σ → Decoding σ))} {name : String}
    {get : σ → Option α} {set : σ → α → σ} {decode : Draft → Decoding α}
    (hfield : Fields.get? name fields = some (once get set decode)) (hnone : get s = none)
    (h : ∀ inner, limit = inner + 1 → decode d = upTo inner n a) :
    record limit fields s (.object [(some name, d)]) = upTo limit (max n 0 + 1) (set s a) :=
  record_upTo fun inner hinner =>
    members_upTo hfield (once_upTo hnone (h inner hinner)) (upTo_of_ok rfl)

theorem mapM_ofItems {decode : Draft → Decoding α} {encode : α → Json} {xs : List α}
    (h : ∀ x ∈ xs, decode (ofJson (encode x)) = upTo limit (encode x).depth x) :
    (ofItems (xs.map encode)).mapM decode = upTo limit (Json.itemsDepth (xs.map encode)) xs := by
  induction xs with
  | nil => exact (upTo_zero limit []).symm
  | cons x xs ih =>
    obtain ⟨hx, hxs⟩ := List.forall_mem_cons.1 h
    rw [List.map_cons, ofItems, List.mapM_cons, Json.itemsDepth]
    exact bind_upTo hx (bind_upTo_ok (ih hxs) rfl)

theorem items_upTo {decode : Nat → Draft → Decoding α} {encode : α → Json} {xs : List α}
    (limit : Nat)
    (h : ∀ inner, ∀ x ∈ xs, decode inner (ofJson (encode x)) = upTo inner (encode x).depth x) :
    items limit decode (ofJson (.array (xs.map encode))) =
      upTo limit (Json.array (xs.map encode)).depth xs := by
  rw [Json.depth, ofJson]
  cases limit with
  | zero => rfl
  | succ inner => exact (mapM_ofItems (h inner)).trans (upTo_succ_succ inner _ xs).symm

/-! ### Steps and arguments -/

theorem position_natCast (i : UInt64) : position (.integer i.toNat) = .ok i := by
  have hi : (0 : Int) ≤ i.toNat ∧ (i.toNat : Int) < UInt64.size :=
    ⟨Int.natCast_nonneg _, Int.ofNat_lt.2 i.toNat_lt⟩
  rw [position, if_pos hi, Int.toNat_natCast, UInt64.ofNat_toNat]

theorem operator_encode (op : Operator) : operator (ofJson op.encode) = .ok op := by
  cases op <;> rfl

theorem number_integer (k : Int64) : number (.integer k.toInt) = .ok (.integer k) := by
  rw [number, Literal.ofInt_toInt]
  rfl

theorem number_float {x : Binary64} (h : x.isFinite = true) :
    number (.float x) = .ok (.float x) := by
  rw [number, checkedLiteral, if_pos h]
  rfl

theorem step_encode (limit : Nat) (s : Step) :
    step limit (ofJson s.encode) = upTo limit s.encode.depth s := by
  cases s with
  | index i =>
    have hidx (inner : Nat) : optional position (ofJson (.integer i.toNat)) =
        upTo inner (Json.integer i.toNat).depth (some i) :=
      optional_upTo nofun (upTo_of_ok (position_natCast i))
    exact bind_upTo_ok (record_single rfl rfl fun inner _ => hidx inner) rfl
  | key name =>
    have hident (inner : Nat) : optional text (ofJson (.string name)) =
        upTo inner (Json.string name).depth (some name) :=
      optional_upTo nofun (upTo_of_ok rfl)
    exact bind_upTo_ok (record_single rfl rfl fun inner _ => hident inner) rfl

theorem argument_encode (limit : Nat) {a : Argument} (h : a.IsEncodable) :
    argument limit (ofJson a.encode) = upTo limit a.encode.depth a := by
  cases a with
  | literal l =>
    cases l with
    | integer k =>
      have hnum (inner : Nat) : optional number (ofJson (.integer k.toInt)) =
          upTo inner (Json.integer k.toInt).depth (some (.integer k)) :=
        optional_upTo nofun (upTo_of_ok (number_integer k))
      exact bind_upTo_ok (record_single rfl rfl fun inner _ => hnum inner) rfl
    | float x =>
      have hnum (inner : Nat) : optional number (ofJson (.float x)) =
          upTo inner (Json.float x).depth (some (.float x)) :=
        optional_upTo nofun (upTo_of_ok (number_float h))
      exact bind_upTo_ok (record_single rfl rfl fun inner _ => hnum inner) rfl
    | string s =>
      have hstring (inner : Nat) : optional text (ofJson (.string s)) =
          upTo inner (Json.string s).depth (some s) :=
        optional_upTo nofun (upTo_of_ok rfl)
      exact bind_upTo_ok (record_single rfl rfl fun inner _ => hstring inner) rfl
  | path p =>
    obtain ⟨first, rest, rfl⟩ := List.exists_cons_of_ne_nil h
    have hpath : ∀ inner, limit = inner + 1 →
        optional (items (limit - 1) step) (ofJson (.array ((first :: rest).map Step.encode))) =
          upTo inner (Json.array ((first :: rest).map Step.encode)).depth
            (some (first :: rest)) := by
      rintro inner rfl
      exact optional_upTo nofun (items_upTo inner fun limit s _ => step_encode limit s)
    exact bind_upTo_ok (record_single rfl rfl hpath) rfl

/-! ### Stages, pipelines and matchers -/

theorem stage_encode (limit : Nat) {st : Stage} (h : st.IsEncodable) :
    stage limit (ofJson st.encode) = upTo limit st.encode.depth st := by
  have hargs : ∀ inner, limit = inner + 1 →
      items (limit - 1) argument (ofJson (.array (st.arguments.map Argument.encode))) =
        upTo inner (Json.array (st.arguments.map Argument.encode)).depth st.arguments := by
    rintro inner rfl
    exact items_upTo inner fun limit a ha => argument_encode limit (h a ha)
  have hdone : StageFields.toStage ⟨some st.operator, some st.arguments⟩ = .ok st := by
    obtain ⟨op, left, right⟩ := st
    cases right <;> rfl
  refine bind_upTo_ok (record_upTo fun inner hinner => ?_) hdone
  refine members_upTo rfl (once_upTo rfl (upTo_of_ok (operator_encode st.operator))) ?_
  exact members_upTo rfl (once_upTo rfl (hargs inner hinner)) (upTo_of_ok rfl)

theorem pipeline_encodeStages {first : Stage} {rest : List Stage}
    (h : ∀ st ∈ first :: rest, st.IsEncodable) (limit : Nat) :
    pipeline limit (ofJson (Pipeline.encodeStages first rest)) =
      upTo limit (Pipeline.encodeStages first rest).depth ⟨first, rest⟩ := by
  induction rest generalizing first limit with
  | nil =>
    cases limit with
    | zero => rfl
    | succ inner =>
      have hstage := stage_encode inner (h first List.mem_cons_self)
      exact bind_upTo_ok (record_single rfl rfl (by rintro _ ⟨⟩; exact hstage)) rfl
  | cons next rest ih =>
    cases limit with
    | zero => rfl
    | succ inner =>
      -- the stage and the pipeline after it stand side by side, one level further in
      obtain ⟨hfirst, hrest⟩ := List.forall_mem_cons.1 h
      have hstage := stage_encode inner hfirst
      have hpipe : optional (pipeline inner) (ofJson (Pipeline.encodeStages next rest)) =
          upTo inner (Pipeline.encodeStages next rest).depth (some ⟨next, rest⟩) :=
        optional_upTo (by cases rest <;> nofun) (ih hrest inner)
      refine bind_upTo_ok (record_upTo ?_) (a := ⟨some first, some (some ⟨next, rest⟩)⟩) rfl
      rintro _ ⟨⟩
      refine members_upTo rfl (once_upTo rfl hstage) ?_
      exact members_upTo rfl (once_upTo rfl hpipe) (upTo_of_ok rfl)

theorem pipeline_encode {p : Pipeline} (h : p.IsEncodable) (limit : Nat) :
    pipeline limit (ofJson p.encode) = upTo limit p.encode.depth p :=
  pipeline_encodeStages h limit

theorem namedPipelines_encode {matchers : Matchers} (h : ∀ entry ∈ matchers, entry.2.IsEncodable)
    (limit : Nat) :
    namedPipelines limit (ofMembers (matchers.mapValues Pipeline.encode)) =
      upTo limit (Json.membersDepth (matchers.mapValues Pipeline.encode)) matchers := by
  induction matchers with
  | nil => exact upTo_of_ok rfl
  | cons entry rest ih =>
    obtain ⟨hentry, hrest⟩ := List.forall_mem_cons.1 h
    have hcons : namedPipelines limit
        (ofMembers (Fields.mapValues Pipeline.encode (entry :: rest))) = (do
          let p ← pipeline limit (ofJson entry.2.encode)
          return (entry.1, p) ::
            (← namedPipelines limit (ofMembers (Fields.mapValues Pipeline.encode rest)))) := rfl
    rw [hcons]
    exact bind_upTo (pipeline_encode hentry limit) (bind_upTo_ok (ih hrest) rfl)

theorem matchers_encode {ms : Matchers} (hnames : (Fields.names ms).Nodup)
    (h : ∀ entry ∈ ms, entry.2.IsEncodable) (limit : Nat) :
    matchers limit (ofJson (Matchers.encode ms)) = upTo limit (Matchers.encode ms).depth ms := by
  cases limit with
  | zero => rfl
  | succ inner =>
    have hmap : (upTo inner (Json.membersDepth (ms.mapValues Pipeline.encode)) ms).map
        Fields.ofList = upTo inner (Json.membersDepth (ms.mapValues Pipeline.encode)) ms := by
      unfold upTo
      split
      · exact congrArg Except.ok (Fields.ofList_of_nodup hnames)
      · rfl
    rw [← namedPipelines_encode h] at hmap
    exact hmap.trans ((namedPipelines_encode h inner).trans (upTo_succ_succ inner _ ms).symm)

/-- Every pipeline without empty paths and infinite numbers is what its tree is decoded to, and so
are named pipelines, in their order, under any limit that the tree does not exceed. -/
theorem decode_encode :
    (∀ p : Pipeline, p.IsEncodable → ∀ limit, p.encode.depth ≤ limit →
      pipeline limit (ofJson p.encode) = .ok p) ∧
    (∀ ms : Matchers, (Fields.names ms).Nodup → (∀ entry ∈ ms, entry.2.IsEncodable) →
      ∀ limit, (Matchers.encode ms).depth ≤ limit →
        matchers limit (ofJson (Matchers.encode ms)) = .ok ms) := by
  constructor
  · intro p hp limit hlimit
    exact (pipeline_encode hp limit).trans (if_pos hlimit)
  · intro ms hnames hms limit hlimit
    exact (matchers_encode hnames hms limit).trans (if_pos hlimit)

/-- Whole and negative zero floats beside integers, a merge without a right argument, and names that
are not sorted. -/
theorem decode_encode_numbers :
    let p : Pipeline := ⟨⟨.replace, .path [.key "a", .index 0],
        some (.literal (.float (Binary64.ofInt 1)))⟩,
      [⟨.merge, .literal (.float (Binary64.zero true)), none⟩,
        ⟨.filter, .literal (.integer 1), some (.literal (.string ""))⟩]⟩
    let q : Pipeline := ⟨⟨.merge, .path [.key ""], none⟩, []⟩
    p.encode.depth = 6 ∧ pipeline 6 (ofJson p.encode) = .ok p ∧
      matchers 7 (ofJson (Matchers.encode [("b", p), ("a", q)])) = .ok [("b", p), ("a", q)] := by
  intro p q
  have hp : p.IsEncodable := by decide +kernel
  have hnames : (Fields.names [("b", p), ("a", q)]).Nodup := by decide +kernel
  have hms : ∀ entry ∈ [("b", p), ("a", q)], entry.2.IsEncodable := by decide +kernel
  refine ⟨by decide +kernel, decode_encode.1 p hp 6 (by decide +kernel), ?_⟩
  exact decode_encode.2 _ hnames hms 7 (by decide +kernel)

end Decode

end DocMatch
