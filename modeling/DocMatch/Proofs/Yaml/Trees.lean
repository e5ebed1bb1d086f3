import DocMatch.Proofs.Yaml.Flow

/-!
The tree of a JSON text, and the node that it expands to. Reading the tokens of a script gives the
script as a tree, without tags and aliases; so expansion follows no alias, and it only has to
understand the words and to find the names of each object different. If the script is a value of
JSON, the node is that value.

    {"a": [1, true]}    mapping    "a"    sequence    1    true
-/

namespace DocMatch

namespace Json

mutual

/-- The tree of a script. -/
def Script.tree : Script → Yaml.Tree
  | .word _ w => .scalar {} w.chars .plain
  | .string _ body => .scalar {} body.text .marked
  | .emptyArray _ _ => .sequence {} []
  | .array _ items => .sequence {} items.trees
  | .emptyObject _ _ => .mapping {} []
  | .object _ members => .mapping {} members.trees

def Items.trees : Items → List Yaml.Tree
  | .last item _ => [item.tree]
  | .next item _ rest => item.tree :: rest.trees

def Members.trees : Members → List (Yaml.Tree × Yaml.Tree)
  | .last _ name _ part _ => [(.scalar {} name.text .marked, part.tree)]
  | .next _ name _ part _ rest => (.scalar {} name.text .marked, part.tree) :: rest.trees

end

end Json

namespace Yaml.Tree

open Json

variable {handles : Handles} {bound : Nat} {rest rest' tokens : List Token} {t : Token}

/-! ### Reading the tokens -/

/-- Whether a token starts a tree without tag and anchor. -/
def startsTree : Token → Bool
  | .scalar _ _ | .flowSequenceStart | .flowMappingStart => true
  | _ => false

theorem startsTree_cases (h : startsTree t = true) :
    (∃ text style, t = .scalar text style) ∨ t = .flowSequenceStart ∨ t = .flowMappingStart := by
  cases t with
  | scalar text style => exact .inl ⟨text, style, rfl⟩
  | flowSequenceStart => exact .inr (.inl rfl)
  | flowMappingStart => exact .inr (.inr rfl)
  | _ => cases h

theorem exists_tokens (x : Script) : ∃ t ts, x.tokens = t :: ts ∧ startsTree t = true := by
  cases x <;> exact ⟨_, _, rfl, rfl⟩

/-- The comma in front of all items but the first. -/
def comma (first : Bool) : List Token := if first then [] else [.flowEntry]

theorem readFlowItems_item {first : Bool} {item : Tree} {items : List Tree}
    (ht : startsTree t = true)
    (hitem : readNode handles false false bound (t :: tokens) = .ok (item, rest))
    (hitems : readFlowItems handles false bound rest = .ok (items, rest')) :
    readFlowItems handles first (bound + 1) (comma first ++ t :: tokens) =
      .ok (item :: items, rest') := by
  rcases startsTree_cases ht with ⟨text, style, rfl⟩ | rfl | rfl <;> cases first <;>
    simp [readFlowItems, comma, readComma, hitem, hitems, bind, Except.bind, pure, Except.pure]

theorem readFlowValue_part {t : Token} (ht : startsTree t = true) :
    readFlowValue handles .flowMappingEnd (bound + 1) (.value :: t :: tokens) =
      readNode handles false false bound (t :: tokens) := by
  rcases startsTree_cases ht with ⟨text, style, rfl⟩ | rfl | rfl <;>
    simp [readFlowValue, flowPartAbsent]

theorem readFlowEntries_entry {first : Bool} {name part : Tree} {entries : List (Tree × Tree)}
    {mid : List Token} (ht : startsTree t = true)
    (hname : readNode handles false false bound (t :: tokens) = .ok (name, mid))
    (hpart : readFlowValue handles .flowMappingEnd bound mid = .ok (part, rest))
    (hentries : readFlowEntries handles false bound rest = .ok (entries, rest')) :
    readFlowEntries handles first (bound + 1) (comma first ++ .key :: t :: tokens) =
      .ok ((name, part) :: entries, rest') := by
  rcases startsTree_cases ht with ⟨text, style, rfl⟩ | rfl | rfl <;> cases first <;>
    simp [readFlowEntries, comma, readComma, flowPartAbsent, hname, hpart, hentries, bind,
      Except.bind, pure, Except.pure]

mutual

/-- The tokens of a script are read as its tree. Each of them takes one step at most. -/
theorem readNode_tokens (x : Script) (handles : Handles) (block indentless : Bool) {bound : Nat}
    (hbound : x.tokens.length ≤ bound) (rest : List Token) :
    readNode handles block indentless bound (x.tokens ++ rest) = .ok (x.tree, rest) := by
  obtain ⟨bound, rfl⟩ : ∃ n, bound = n + 1 := by
    obtain ⟨t, ts, htokens, -⟩ := exists_tokens x
    rw [htokens, List.length_cons] at hbound
    exact ⟨bound - 1, by omega⟩
  cases x with
  | word gap w => rfl
  | string gap body => rfl
  | emptyArray gap inner =>
    obtain ⟨bound, rfl⟩ : ∃ n, bound = n + 1 :=
      ⟨bound - 1, by simp only [Script.tokens, List.length_cons] at hbound; omega⟩
    rfl
  | array gap items =>
    have hitems := readFlowItems_tokens items handles true (Nat.le_of_succ_le_succ hbound) rest
    simp only [comma, if_true, List.nil_append] at hitems
    simp [Script.tokens, readNode, readProperties, hitems, bind, Except.bind, pure, Except.pure,
      Script.tree]
  | emptyObject gap inner =>
    obtain ⟨bound, rfl⟩ : ∃ n, bound = n + 1 :=
      ⟨bound - 1, by simp only [Script.tokens, List.length_cons] at hbound; omega⟩
    rfl
  | object gap members =>
    have hmembers := readFlowEntries_tokens members handles true (Nat.le_of_succ_le_succ hbound) rest
    simp only [comma, if_true, List.nil_append] at hmembers
    simp [Script.tokens, readNode, readProperties, hmembers, bind, Except.bind, pure, Except.pure,
      Script.tree]

theorem readFlowItems_tokens (xs : Items) (handles : Handles) (first : Bool) {bound : Nat}
    (hbound : xs.tokens.length ≤ bound) (rest : List Token) :
    readFlowItems handles first bound (comma first ++ (xs.tokens ++ rest)) =
      .ok (xs.trees, rest) := by
  cases xs with
  | last item after =>
    obtain ⟨t, ts, htokens, ht⟩ := exists_tokens item
    have hall : (Items.last item after).tokens ++ rest =
        t :: (ts ++ .flowSequenceEnd :: rest) := by
      simp [Items.tokens, htokens]
    simp only [Items.tokens, List.length_append, List.length_singleton] at hbound
    obtain ⟨bound, rfl⟩ : ∃ n, bound = n + 2 := by
      rw [htokens, List.length_cons] at hbound
      exact ⟨bound - 2, by omega⟩
    have hitem := readNode_tokens item handles false false (Nat.le_of_succ_le_succ hbound)
      (.flowSequenceEnd :: rest)
    rw [htokens, List.cons_append] at hitem
    rw [hall]
    exact readFlowItems_item ht hitem rfl
  | next item after more =>
    obtain ⟨t, ts, htokens, ht⟩ := exists_tokens item
    have hall : (Items.next item after more).tokens ++ rest =
        t :: (ts ++ .flowEntry :: (more.tokens ++ rest)) := by
      simp [Items.tokens, htokens]
    simp only [Items.tokens, List.length_append, List.length_cons] at hbound
    obtain ⟨bound, rfl⟩ : ∃ n, bound = n + 1 := ⟨bound - 1, by omega⟩
    have hlength : item.tokens.length ≤ bound ∧ more.tokens.length ≤ bound := by omega
    have hitem := readNode_tokens item handles false false hlength.1
      (.flowEntry :: (more.tokens ++ rest))
    rw [htokens, List.cons_append] at hitem
    rw [hall]
    exact readFlowItems_item ht hitem (readFlowItems_tokens more handles false hlength.2 rest)

theorem readFlowEntries_tokens (ms : Members) (handles : Handles) (first : Bool) {bound : Nat}
    (hbound : ms.tokens.length ≤ bound) (rest : List Token) :
    readFlowEntries handles first bound (comma first ++ (ms.tokens ++ rest)) =
      .ok (ms.trees, rest) := by
  cases ms with
  | last before name colon part after =>
    obtain ⟨t, ts, htokens, ht⟩ := exists_tokens part
    have hall : (Members.last before name colon part after).tokens ++ rest =
        .key :: .scalar name.text .marked :: .value :: t :: (ts ++ .flowMappingEnd :: rest) := by
      simp [Members.tokens, htokens]
    simp only [Members.tokens, List.length_cons, List.length_append, List.length_nil] at hbound
    obtain ⟨bound, rfl⟩ : ∃ n, bound = n + 2 := ⟨bound - 2, by omega⟩
    have hlength : part.tokens.length ≤ bound := by omega
    have hpart := readNode_tokens part handles false false hlength (.flowMappingEnd :: rest)
    rw [htokens, List.cons_append] at hpart
    rw [hall]
    exact readFlowEntries_entry rfl rfl ((readFlowValue_part ht).trans hpart) rfl
  | next before name colon part after more =>
    obtain ⟨t, ts, htokens, ht⟩ := exists_tokens part
    have hall : (Members.next before name colon part after more).tokens ++ rest =
        .key :: .scalar name.text .marked :: .value :: t ::
          (ts ++ .flowEntry :: (more.tokens ++ rest)) := by
      simp [Members.tokens, htokens]
    simp only [Members.tokens, List.length_cons, List.length_append] at hbound
    obtain ⟨bound, rfl⟩ : ∃ n, bound = n + 2 := ⟨bound - 2, by omega⟩
    have hlength : part.tokens.length ≤ bound ∧ more.tokens.length ≤ bound + 1 := by omega
    have hpart := readNode_tokens part handles false false hlength.1
      (.flowEntry :: (more.tokens ++ rest))
    rw [htokens, List.cons_append] at hpart
    rw [hall]
    exact readFlowEntries_entry rfl rfl ((readFlowValue_part ht).trans hpart)
      (readFlowEntries_tokens more handles false hlength.2 rest)

end

/-- A script is the only document of its tokens. -/
theorem ofTokens_script (x : Script) : ofTokens x.tokens = .ok (some x.tree) := by
  obtain ⟨t, ts, htokens, ht⟩ := exists_tokens x
  have hopens : opensDocument t = false := by
    rcases startsTree_cases ht with ⟨text, style, rfl⟩ | rfl | rfl <;> rfl
  have hread := readNode_tokens x standardHandles true false
    (by omega : x.tokens.length ≤ 2 * x.tokens.length + 2) []
  rw [List.append_nil, htokens, List.length_cons] at hread
  rw [htokens]
  simp [ofTokens, hopens, hread, bind, Except.bind, pure, Except.pure]

/-! ### Expanding the tree -/

variable {anchors : List (Nat × Tree)} {depth : Nat}

theorem expandWithin_plain {text : List Char} {node : Node}
    (h : understand (String.ofList text) = .ok node) :
    expandWithin anchors depth false (.scalar {} text .plain) = pure node := by
  rw [expandWithin]
  simp only [follow, isAlias, understandScalar, Properties.ownTag?, untagged, h, pure_bind]
  rfl

theorem expandWithin_marked (text : List Char) :
    expandWithin anchors depth false (.scalar {} text .marked) =
      pure (.string (String.ofList text)) := by
  rw [expandWithin]
  simp only [follow, isAlias, understandScalar, Properties.ownTag?, untagged, pure_bind]
  rfl

theorem expandWithin_sequence {trees : List Tree} {nodes : List Node}
    (h : List.Forall₂ (fun tree node => expandWithin anchors depth false tree = pure node) trees
      nodes) :
    expandWithin anchors (depth + 1) false (.sequence {} trees) = pure (.sequence nodes) := by
  have hnodes : trees.mapM (expandWithin anchors depth false) = pure nodes := by
    induction h with
    | nil => rfl
    | cons hnode _ ih => simp [hnode, ih]
  rw [expandWithin]
  simp [follow, isAlias, hnodes, withTag, Properties.ownTag?]

/-- An entry expands to a key and a node. -/
def EntryExpands (anchors : List (Nat × Tree)) (depth : Nat) (entry : Tree × Tree)
    (node : Node × Node) : Prop :=
  expandWithin anchors depth false entry.1 = pure node.1 ∧
    expandWithin anchors depth false entry.2 = pure node.2

/-- Entries are expanded one after the other, if each key is a new string. -/
theorem foldlM_entries {f : List (Node × Node) → Tree × Tree → Expanding (List (Node × Node))}
    (hf : ∀ before entry node, EntryExpands anchors depth entry node →
      before.any (fun e => e.1.same node.1) = false → f before entry = pure (node :: before))
    {trees : List (Tree × Tree)} {nodes : List (Node × Node)} {names : List String}
    (h : List.Forall₂ (EntryExpands anchors depth) trees nodes)
    (hnames : nodes.map Prod.fst = names.map Node.string) (hdistinct : names.Nodup)
    (before : List (Node × Node)) (hbefore : ∀ e ∈ before, ∃ s, e.1 = .string s ∧ s ∉ names) :
    trees.foldlM f before = pure (nodes.reverse ++ before) := by
  induction h generalizing names before with
  | nil => rfl
  | @cons entry node trees nodes hentry _ ih =>
    obtain ⟨name, names, rfl⟩ : ∃ name names', names = name :: names' := by
      cases names with
      | nil => cases hnames
      | cons name names => exact ⟨name, names, rfl⟩
    obtain ⟨hkey, hnames⟩ := List.cons.inj hnames
    obtain ⟨hnew, hdistinct⟩ := List.nodup_cons.1 hdistinct
    have hnone : before.any (fun e => e.1.same node.1) = false := by
      rw [List.any_eq_false]
      intro e he
      obtain ⟨s, hs, hne⟩ := hbefore e he
      have hdiffers : s ≠ name := fun heq => hne (heq ▸ List.mem_cons_self)
      simp [hs, hkey, Node.same, hdiffers]
    have hnext : ∀ e ∈ node :: before, ∃ s, e.1 = .string s ∧ s ∉ names := by
      refine List.forall_mem_cons.2 ⟨⟨name, hkey, hnew⟩, fun e he => ?_⟩
      obtain ⟨s, hs, hne⟩ := hbefore e he
      exact ⟨s, hs, fun hmem => hne (List.mem_cons_of_mem name hmem)⟩
    rw [List.foldlM_cons, hf before entry node hentry hnone, pure_bind,
      ih hnames hdistinct (node :: before) hnext]
    simp

/-- A mapping expands if its keys are different strings. -/
theorem expandWithin_mapping {trees : List (Tree × Tree)} {nodes : List (Node × Node)}
    {names : List String} (h : List.Forall₂ (EntryExpands anchors depth) trees nodes)
    (hnames : nodes.map Prod.fst = names.map Node.string) (hdistinct : names.Nodup) :
    expandWithin anchors (depth + 1) false (.mapping {} trees) = pure (.mapping nodes) := by
  rw [expandWithin]
  simp only [follow, isAlias, withTag, Properties.ownTag?, pure_bind]
  rw [foldlM_entries ?_ h hnames hdistinct [] nofun]
  · simp
  · intro before entry node hentry hnone
    simp [hentry.1, hentry.2, hnone]

/-- The value of an array is read below a limit that is not reached. -/
theorem toValue_array_eq_ok {limit : Nat} {items : List Draft} {v : Value}
    (h : (Draft.array items).toValue limit = .ok v) :
    ∃ below vs, limit = below + 1 ∧ Draft.toItems below items = .ok vs ∧ v = .sequence vs := by
  cases limit with
  | zero => cases h
  | succ below =>
    rw [Draft.toValue, if_neg (Nat.succ_ne_zero below), map_eq_ok] at h
    obtain ⟨vs, hvs, rfl⟩ := h
    exact ⟨below, vs, rfl, hvs, rfl⟩

theorem toValue_object_eq_ok {limit : Nat} {members : List (Option String × Draft)} {v : Value}
    (h : (Draft.object members).toValue limit = .ok v) :
    ∃ below fields, limit = below + 1 ∧ Draft.toFields below members = .ok fields ∧
      v = .mapping (Fields.ofList fields) := by
  cases limit with
  | zero => cases h
  | succ below =>
    rw [Draft.toValue, if_neg (Nat.succ_ne_zero below), map_eq_ok] at h
    obtain ⟨fields, hfields, rfl⟩ := h
    exact ⟨below, fields, rfl, hfields, rfl⟩

mutual

/-- A script that is a value of JSON expands to a node of that value. -/
theorem exists_expanded (x : Script) {limit depth : Nat} {v : Value}
    (hx : x.pieces.all (·.2.isPortable) = true) (hdistinct : x.draft.hasDistinctNames = true)
    (hdepth : limit ≤ depth) (h : x.draft.toValue limit = .ok v) :
    ∃ node, expandWithin anchors depth false x.tree = pure node ∧ node.toValue = .ok v := by
  cases x with
  | word gap w =>
    obtain ⟨node, hnode, hvalue⟩ :=
      understand_word w (Bool.and_eq_true_iff.1 (List.all_cons ▸ hx)).1 h
    exact ⟨node, expandWithin_plain hnode, hvalue⟩
  | string gap body =>
    have hbody := Body.isPortable (Bool.and_eq_true_iff.1 (List.all_cons ▸ hx)).1
    rw [Script.draft, Draft.toValue, Body.text?_eq hbody.whole] at h
    cases h
    exact ⟨.string (String.ofList body.text), expandWithin_marked _, rfl⟩
  | emptyArray gap inner =>
    obtain ⟨below, vs, rfl, hvs, rfl⟩ := toValue_array_eq_ok h
    cases hvs
    obtain ⟨depth, rfl⟩ : ∃ n, depth = n + 1 := ⟨depth - 1, by omega⟩
    exact ⟨.sequence [], expandWithin_sequence .nil, rfl⟩
  | array gap items =>
    obtain ⟨below, vs, rfl, hvs, rfl⟩ := toValue_array_eq_ok h
    obtain ⟨depth, rfl⟩ : ∃ n, depth = n + 1 := ⟨depth - 1, by omega⟩
    obtain ⟨nodes, hnodes, hvalue⟩ := exists_expandedItems items
      (Bool.and_eq_true_iff.1 (List.all_cons ▸ hx)).2 hdistinct (Nat.le_of_succ_le_succ hdepth) hvs
    refine ⟨.sequence nodes, expandWithin_sequence hnodes, ?_⟩
    rw [Node.toValue, hvalue]
    rfl
  | emptyObject gap inner =>
    obtain ⟨below, fields, rfl, hfields, rfl⟩ := toValue_object_eq_ok h
    cases hfields
    obtain ⟨depth, rfl⟩ : ∃ n, depth = n + 1 := ⟨depth - 1, by omega⟩
    have hnames : ([] : List Node) = ([] : List String).map Node.string := rfl
    exact ⟨.mapping [], expandWithin_mapping .nil hnames List.nodup_nil, rfl⟩
  | object gap members =>
    obtain ⟨below, fields, rfl, hfields, rfl⟩ := toValue_object_eq_ok h
    obtain ⟨depth, rfl⟩ : ∃ n, depth = n + 1 := ⟨depth - 1, by omega⟩
    rw [Script.draft, Draft.hasDistinctNames, Bool.and_eq_true, decide_eq_true_eq] at hdistinct
    obtain ⟨nodes, names, hnodes, hkeys, hnames, hvalue⟩ := exists_expandedEntries members
      (Bool.and_eq_true_iff.1 (List.all_cons ▸ hx)).2 hdistinct.2
      (Nat.le_of_succ_le_succ hdepth) hfields
    have hnodup : names.Nodup := by
      rw [hnames] at hdistinct
      exact hdistinct.1.of_map some
    refine ⟨.mapping nodes, expandWithin_mapping hnodes hkeys hnodup, ?_⟩
    rw [Node.toValue, hvalue]
    rfl

theorem exists_expandedItems (xs : Items) {limit depth : Nat} {vs : List Value}
    (hxs : xs.pieces.all (·.2.isPortable) = true)
    (hdistinct : Draft.itemsHaveDistinctNames xs.drafts = true)
    (hdepth : limit ≤ depth) (h : Draft.toItems limit xs.drafts = .ok vs) :
    ∃ nodes, List.Forall₂ (fun tree node => expandWithin anchors depth false tree = pure node)
      xs.trees nodes ∧ Node.toItems nodes = .ok vs := by
  cases xs with
  | last item after =>
    rw [Items.pieces, List.all_append, Bool.and_eq_true] at hxs
    rw [Items.drafts, Draft.itemsHaveDistinctNames, Bool.and_eq_true] at hdistinct
    simp only [Items.drafts, Draft.toItems, bind_eq_ok] at h
    obtain ⟨v, hv, vs', hvs', heq⟩ := h
    cases hvs'
    cases heq
    obtain ⟨node, hnode, hvalue⟩ := exists_expanded item hxs.1 hdistinct.1 hdepth hv
    refine ⟨[node], .cons hnode .nil, ?_⟩
    rw [Node.toItems, hvalue]
    rfl
  | next item after more =>
    rw [Items.pieces, List.all_append, List.all_cons, Bool.and_eq_true, Bool.and_eq_true] at hxs
    rw [Items.drafts, Draft.itemsHaveDistinctNames, Bool.and_eq_true] at hdistinct
    simp only [Items.drafts, Draft.toItems, bind_eq_ok] at h
    obtain ⟨v, hv, vs', hvs', heq⟩ := h
    cases heq
    obtain ⟨node, hnode, hvalue⟩ := exists_expanded item hxs.1 hdistinct.1 hdepth hv
    obtain ⟨nodes, hnodes, hvalues⟩ := exists_expandedItems more hxs.2.2 hdistinct.2 hdepth hvs'
    refine ⟨node :: nodes, .cons hnode hnodes, ?_⟩
    rw [Node.toItems, hvalue, hvalues]
    rfl

theorem exists_expandedEntries (ms : Members) {limit depth : Nat} {fields : List (String × Value)}
    (hms : ms.pieces.all (·.2.isPortable) = true)
    (hdistinct : Draft.membersHaveDistinctNames ms.drafts = true)
    (hdepth : limit ≤ depth) (h : Draft.toFields limit ms.drafts = .ok fields) :
    ∃ (nodes : List (Node × Node)) (names : List String),
      List.Forall₂ (EntryExpands anchors depth) ms.trees nodes ∧
      nodes.map Prod.fst = names.map Node.string ∧
      ms.drafts.map Prod.fst = names.map some ∧ Node.toFields nodes = .ok fields := by
  cases ms with
  | last before name colon part after =>
    simp only [Members.pieces, List.all_cons, List.all_append, Bool.and_eq_true] at hms
    rw [Members.drafts, Draft.membersHaveDistinctNames, Bool.and_eq_true] at hdistinct
    have hname := (Body.isPortable hms.1).whole
    simp only [Members.drafts, Draft.toFields, bind_eq_ok, Body.text?_eq hname] at h
    obtain ⟨_, ⟨⟩, v, hv, fields', hfields', heq⟩ := h
    cases hfields'
    cases heq
    obtain ⟨node, hnode, hvalue⟩ := exists_expanded part hms.2.2.1 hdistinct.1 hdepth hv
    refine ⟨[(.string (String.ofList name.text), node)], [String.ofList name.text],
      .cons ⟨expandWithin_marked _, hnode⟩ .nil, rfl, ?_, ?_⟩
    · simp [Members.drafts, Body.text?_eq hname]
    · simp only [Node.toFields, Node.entryName, hvalue]
      rfl
  | next before name colon part after more =>
    simp only [Members.pieces, List.all_cons, List.all_append, Bool.and_eq_true] at hms
    rw [Members.drafts, Draft.membersHaveDistinctNames, Bool.and_eq_true] at hdistinct
    have hname := (Body.isPortable hms.1).whole
    simp only [Members.drafts, Draft.toFields, bind_eq_ok, Body.text?_eq hname] at h
    obtain ⟨_, ⟨⟩, v, hv, fields', hfields', heq⟩ := h
    cases heq
    obtain ⟨node, hnode, hvalue⟩ := exists_expanded part hms.2.2.1 hdistinct.1 hdepth hv
    obtain ⟨nodes, names, hnodes, hkeys, hnames, hvalues⟩ :=
      exists_expandedEntries more hms.2.2.2.2 hdistinct.2 hdepth hfields'
    refine ⟨(.string (String.ofList name.text), node) :: nodes, String.ofList name.text :: names,
      .cons ⟨expandWithin_marked _, hnode⟩ hnodes, ?_, ?_, ?_⟩
    · rw [List.map_cons, hkeys, List.map_cons]
    · rw [Members.drafts, List.map_cons, hnames, Body.text?_eq hname, List.map_cons]
    · simp only [Node.toFields, Node.entryName, hvalue, hvalues]
      rfl

end

end Yaml.Tree

end DocMatch
