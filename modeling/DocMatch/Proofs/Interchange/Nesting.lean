import DocMatch.Proofs.Expr.Writing
import DocMatch.Proofs.Interchange.RoundTrip
import DocMatch.Proofs.Json.ReadBack

/-!
Pipelines written as JSON texts. The text of a tree is read as the tree, so what a pipeline loses on
its way through a text is lost to the limit on nesting, and to nothing else. Each stage is nested in
the one before it, and a stage is three levels deep, or five if one of its arguments is a path:

    stages          1       2       …    122      123
    paths           6       7       …    127      128      deeper than the limit

So pipelines of up to 122 stages come back from their texts, and longer ones may be refused.
-/

namespace DocMatch

/-! ### Trees of pipelines that were read -/

/-- What can be written as an expression can be encoded. -/
theorem Argument.IsWritable.isEncodable {a : Argument} (h : a.IsWritable) : a.IsEncodable := by
  cases h with
  | string _ => exact trivial
  | path hne _ => exact hne

theorem Stage.IsWritable.arguments {stage : Stage} (h : stage.IsWritable) :
    ∀ a ∈ stage.arguments, a.IsWritable := by
  cases h with
  | bare h => exact List.forall_mem_singleton.2 h
  | applied hleft hright =>
    exact List.forall_mem_cons.2 ⟨hleft, List.forall_mem_singleton.2 hright⟩

theorem Pipeline.IsWritable.isEncodable {p : Pipeline} (h : p.IsWritable) : p.IsEncodable :=
  fun stage hstage a ha => ((h stage hstage).arguments a ha).isEncodable

namespace Json

theorem itemsFloats_map {α : Type} {encode : α → Json} {xs : List α}
    (h : ∀ x ∈ xs, (encode x).floats = []) : itemsFloats (xs.map encode) = [] := by
  induction xs with
  | nil => rfl
  | cons x xs ih =>
    obtain ⟨hx, hxs⟩ := List.forall_mem_cons.1 h
    rw [List.map_cons, itemsFloats, hx, ih hxs, List.append_nil]

end Json

open Json

theorem Argument.IsWritable.floats_encode {a : Argument} (h : a.IsWritable) :
    a.encode.floats = [] := by
  cases h with
  | string _ => rfl
  | @path p _ _ =>
    have hsteps : itemsFloats (p.map Step.encode) = [] :=
      itemsFloats_map fun step _ => by cases step <;> rfl
    rw [Argument.encode, floats, membersFloats, floats, hsteps]
    rfl

theorem Stage.IsWritable.floats_encode {stage : Stage} (h : stage.IsWritable) :
    stage.encode.floats = [] := by
  have harguments : itemsFloats (stage.arguments.map Argument.encode) = [] :=
    itemsFloats_map fun a ha => (h.arguments a ha).floats_encode
  rw [Stage.encode, floats, membersFloats, membersFloats, floats, harguments]
  rfl

theorem floats_encodeStages {first : Stage} {rest : List Stage}
    (h : ∀ stage ∈ first :: rest, stage.IsWritable) :
    (Pipeline.encodeStages first rest).floats = [] := by
  induction rest generalizing first with
  | nil =>
    rw [Pipeline.encodeStages, floats, membersFloats, (h first List.mem_cons_self).floats_encode]
    rfl
  | cons next rest ih =>
    obtain ⟨hfirst, hrest⟩ := List.forall_mem_cons.1 h
    rw [Pipeline.encodeStages, floats, membersFloats, membersFloats, hfirst.floats_encode, ih hrest]
    rfl

/-! ### How deep they are -/

theorem Argument.depth_encode_le (a : Argument) : 1 ≤ a.encode.depth ∧ a.encode.depth ≤ 3 := by
  cases a with
  | literal l => cases l <;> exact ⟨Nat.le_refl 1, Nat.le_add_right 1 2⟩
  | path p =>
    have hsteps : itemsDepth (p.map Step.encode) ≤ 1 :=
      itemsDepth_map_le fun step _ => by cases step <;> exact Nat.le_refl 1
    have hdepth : (Argument.path p).encode.depth = itemsDepth (p.map Step.encode) + 2 := by
      rw [Argument.encode, depth, membersDepth, depth, membersDepth, Nat.max_zero]
    omega

theorem Stage.depth_encode_le (stage : Stage) :
    3 ≤ stage.encode.depth ∧ stage.encode.depth ≤ 5 := by
  have hbelow : itemsDepth (stage.arguments.map Argument.encode) ≤ 3 :=
    itemsDepth_map_le fun a _ => a.depth_encode_le.2
  have habove : stage.left.encode.depth ≤ itemsDepth (stage.arguments.map Argument.encode) :=
    Nat.le_max_left _ _
  have hleft := stage.left.depth_encode_le.1
  have hdepth : stage.encode.depth = itemsDepth (stage.arguments.map Argument.encode) + 2 := by
    rw [Stage.encode, depth, membersDepth, membersDepth, depth, membersDepth, Nat.max_zero]
    exact congrArg (· + 1) (Nat.zero_max _)
  omega

/-- Each stage is one level further in than the stage before it. -/
theorem le_depth_encodeStages {first : Stage} {rest : List Stage} {m : Nat}
    (h : ∀ stage ∈ first :: rest, m ≤ stage.encode.depth) :
    rest.length + m + 1 ≤ (Pipeline.encodeStages first rest).depth := by
  induction rest generalizing first with
  | nil =>
    have hfirst := h first List.mem_cons_self
    rw [Pipeline.encodeStages, depth, membersDepth, membersDepth, Nat.max_zero, List.length_nil]
    omega
  | cons next rest ih =>
    have hmore := ih (List.forall_mem_cons.1 h).2
    rw [Pipeline.encodeStages, depth, membersDepth, membersDepth, membersDepth, Nat.max_zero,
      List.length_cons]
    omega

theorem depth_encodeStages_le {first : Stage} {rest : List Stage} {m : Nat}
    (h : ∀ stage ∈ first :: rest, stage.encode.depth ≤ m) :
    (Pipeline.encodeStages first rest).depth ≤ rest.length + m + 1 := by
  induction rest generalizing first with
  | nil =>
    have hfirst := h first List.mem_cons_self
    rw [Pipeline.encodeStages, depth, membersDepth, membersDepth, Nat.max_zero, List.length_nil]
    omega
  | cons next rest ih =>
    obtain ⟨hfirst, hrest⟩ := List.forall_mem_cons.1 h
    have hmore := ih hrest
    rw [Pipeline.encodeStages, depth, membersDepth, membersDepth, membersDepth, Nat.max_zero,
      List.length_cons]
    omega

namespace Decode

variable {α : Type}

/-! ### Texts -/

/-- A tree comes back from its text, up to the limit on nesting. -/
theorem ofText_toText (decode : Nat → Draft → Decoding α) {j : Json}
    (h : ∀ x ∈ j.floats, ReadsBack x) :
    ofText decode j.toText = decode nestingLimit (Draft.ofJson j) := by
  have hread : Draft.read j.toText.toList = (Draft.ofJson j, some []) := by
    rw [Json.toText, String.toList_ofList]
    exact Draft.read_compact h
  have hend : ofText decode j.toText = (do
      let a ← decode nestingLimit (Draft.ofJson j)
      if Draft.endsWell (some []) then return a else fail .trailing) := by
    rw [ofText, hread]
  rw [hend]
  cases decode nestingLimit (Draft.ofJson j) <;> rfl

/-- A pipeline that was read comes back from its text, unless the text is nested too deep. -/
theorem ofText_encode {p : Pipeline} (h : p.IsWritable) :
    ofText pipeline p.encode.toText = upTo nestingLimit p.encode.depth p := by
  have hfloats : p.encode.floats = [] := floats_encodeStages h
  rw [ofText_toText pipeline (by rw [hfloats]; nofun), pipeline_encode h.isEncodable]

/-- A pipeline that was read from an expression comes back from its text exactly if the text is not
nested deeper than the limit, and is refused for that and nothing else; with each stage the text is
nested one level deeper. -/
theorem ofText_encode_of_parse {text : String} {p : Pipeline} (h : Pipeline.parse text = .ok p) :
    ofText pipeline p.encode.toText =
        (if p.encode.depth ≤ nestingLimit then .ok p else .error (.text .tooDeep)) ∧
      p.stages.length + 3 ≤ p.encode.depth ∧ p.encode.depth ≤ p.stages.length + 5 := by
  refine ⟨ofText_encode (Pipeline.isWritable_of_parse h), ?_⟩
  have hlow : p.rest.length + 3 + 1 ≤ p.encode.depth :=
    le_depth_encodeStages fun stage _ => stage.depth_encode_le.1
  have hhigh : p.encode.depth ≤ p.rest.length + 5 + 1 :=
    depth_encodeStages_le fun stage _ => stage.depth_encode_le.2
  rw [Pipeline.stages, List.length_cons]
  omega

theorem forall_mem_chain {stage : Stage} {P : Stage → Prop} (h : P stage) (n : Nat) :
    ∀ st ∈ stage :: List.replicate n stage, P st :=
  List.forall_mem_cons.2 ⟨h, fun _ hmem => List.eq_of_mem_replicate hmem ▸ h⟩

/-- The longest chain `a|a|…` that comes back has 122 stages. -/
theorem ofText_encode_longest :
    let stage : Stage := ⟨.filter, .path [.key "a"], none⟩
    let p : Pipeline := ⟨stage, List.replicate 121 stage⟩
    Pipeline.parse p.text = .ok p ∧ p.encode.depth = nestingLimit ∧
      ofText pipeline p.encode.toText = .ok p := by
  intro stage p
  have hkey : (Step.key "a").IsWritable := .key (by decide) (List.all_eq_true.1 rfl)
  have hstage : stage.IsWritable := .bare (.path (by decide) (List.forall_mem_singleton.2 hkey))
  have hparse : Pipeline.parse p.text = .ok p :=
    Pipeline.parse_text_of_isWritable (forall_mem_chain hstage 121)
  have hlow : (List.replicate 121 stage).length + 5 + 1 ≤ p.encode.depth :=
    le_depth_encodeStages (forall_mem_chain (Nat.le_refl 5) 121)
  obtain ⟨hread, _, hhigh⟩ := ofText_encode_of_parse hparse
  have hdepth : p.encode.depth = nestingLimit := by
    rw [Pipeline.stages, List.length_cons, List.length_replicate] at hhigh
    rw [List.length_replicate] at hlow
    exact Nat.le_antisymm hhigh hlow
  rw [if_pos (Nat.le_of_eq hdepth)] at hread
  exact ⟨hparse, hdepth, hread⟩

/-- One stage more, and the text of what was read is refused. -/
theorem ofText_encode_refused :
    let stage : Stage := ⟨.filter, .path [.key "a"], none⟩
    let p : Pipeline := ⟨stage, List.replicate 122 stage⟩
    Pipeline.parse p.text = .ok p ∧ ofText pipeline p.encode.toText = .error (.text .tooDeep) := by
  intro stage p
  have hkey : (Step.key "a").IsWritable := .key (by decide) (List.all_eq_true.1 rfl)
  have hstage : stage.IsWritable := .bare (.path (by decide) (List.forall_mem_singleton.2 hkey))
  have hwritable : p.IsWritable := forall_mem_chain hstage 122
  have hdepth : (List.replicate 122 stage).length + 5 + 1 ≤ p.encode.depth :=
    le_depth_encodeStages (forall_mem_chain (Nat.le_refl 5) 122)
  rw [List.length_replicate] at hdepth
  exact ⟨Pipeline.parse_text_of_isWritable hwritable,
    (ofText_encode hwritable).trans (if_neg (Nat.not_le.2 hdepth))⟩

end Decode

end DocMatch
