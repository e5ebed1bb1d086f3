import DocMatch.Proofs.Fields
import DocMatch.Proofs.Result
import DocMatch.Yaml.Node

/-!
What becomes of a YAML tree as a document value. Only keys can stand in the way: the first key, in
the order of reading, that is a sequence or a mapping below its tags. Without such a key the value
has the shape of the tree, and only entries of one name are brought together:

    1: a
    '1': b          two keys with the text   1
    !t 1: c         and one more:            {"1": "c"}
-/

namespace DocMatch.Yaml

namespace Node

variable {node key : Node} {items : List Node} {entries : List (Node × Node)}

/-! ### The keys of a tree -/

/-- A node without the tags on it. -/
def untagged : Node → Node
  | tagged _ node => untagged node
  | node => node

/-- Whether a node is a sequence or a mapping. -/
def isCollection : Node → Bool
  | sequence _ | mapping _ => true
  | _ => false

/-- The nodes that a tree consists of: the tree, and what stands in it as an item, as a value or
below a tag. A key is no part. -/
inductive IsPart (part : Node) : Node → Prop
  | self : IsPart part part
  | item {node : Node} {items : List Node} :
      node ∈ items → IsPart part node → IsPart part (sequence items)
  | value {key node : Node} {entries : List (Node × Node)} :
      (key, node) ∈ entries → IsPart part node → IsPart part (mapping entries)
  | tagged {tag : String} {node : Node} : IsPart part node → IsPart part (tagged tag node)

/-- A key of some mapping in a tree. -/
def HasKey (node key : Node) : Prop :=
  ∃ entries value, IsPart (mapping entries) node ∧ (key, value) ∈ entries

mutual

/-- The keys of all mappings in a tree in the order of reading: a key comes before those in its
value. -/
def keys : Node → List Node
  | sequence items => itemKeys items
  | mapping entries => entryKeys entries
  | tagged _ node => keys node
  | _ => []

def itemKeys : List Node → List Node
  | [] => []
  | node :: rest => keys node ++ itemKeys rest

def entryKeys : List (Node × Node) → List Node
  | [] => []
  | (key, node) :: rest => key :: (keys node ++ entryKeys rest)

end

/-- The first key, without its tags, that is a sequence or a mapping. -/
def firstCollection (keys : List Node) : Option Node :=
  (keys.map untagged).find? isCollection

theorem firstCollection_append (keys more : List Node) :
    firstCollection (keys ++ more) = (firstCollection keys).or (firstCollection more) := by
  rw [firstCollection, List.map_append, List.find?_append]
  rfl

theorem firstCollection_eq_none_iff {keys : List Node} :
    firstCollection keys = none ↔ ∀ key ∈ keys, ¬ key.untagged.isCollection := by
  simp [firstCollection]

theorem hasKey_sequence : (sequence items).HasKey key ↔ ∃ node ∈ items, node.HasKey key := by
  constructor
  · rintro ⟨entries, value, hpart, hmem⟩
    cases hpart with
    | item hnode hpart => exact ⟨_, hnode, entries, value, hpart, hmem⟩
  · rintro ⟨node, hnode, entries, value, hpart, hmem⟩
    exact ⟨entries, value, .item hnode hpart, hmem⟩

theorem hasKey_mapping :
    (mapping entries).HasKey key ↔ ∃ entry ∈ entries, key = entry.1 ∨ entry.2.HasKey key := by
  constructor
  · rintro ⟨others, value, hpart, hmem⟩
    cases hpart with
    | self => exact ⟨_, hmem, .inl rfl⟩
    | value hentry hpart => exact ⟨_, hentry, .inr ⟨others, value, hpart, hmem⟩⟩
  · rintro ⟨⟨first, value⟩, hentry, rfl | ⟨others, last, hpart, hmem⟩⟩
    · exact ⟨entries, value, .self, hentry⟩
    · exact ⟨others, last, .value hentry hpart, hmem⟩

theorem hasKey_tagged {tag : String} : (tagged tag node).HasKey key ↔ node.HasKey key := by
  constructor
  · rintro ⟨entries, value, hpart, hmem⟩
    cases hpart with
    | tagged hpart => exact ⟨entries, value, hpart, hmem⟩
  · rintro ⟨entries, value, hpart, hmem⟩
    exact ⟨entries, value, .tagged hpart, hmem⟩

mutual

/-- The keys read are those of the mappings at any depth. -/
theorem mem_keys_iff (node key : Node) : key ∈ node.keys ↔ node.HasKey key := by
  cases node with
  | sequence items =>
    rw [keys, mem_itemKeys_iff items key, hasKey_sequence]
  | mapping entries =>
    rw [keys, mem_entryKeys_iff entries key, hasKey_mapping]
  | tagged tag node =>
    rw [keys, mem_keys_iff node key, hasKey_tagged]
  | _ =>
    refine iff_of_false List.not_mem_nil ?_
    rintro ⟨entries, value, hpart, -⟩
    cases hpart
termination_by structural node

theorem mem_itemKeys_iff (items : List Node) (key : Node) :
    key ∈ itemKeys items ↔ ∃ node ∈ items, node.HasKey key := by
  cases items with
  | nil => simp [itemKeys]
  | cons node rest =>
    rw [itemKeys, List.mem_append, mem_keys_iff node key, mem_itemKeys_iff rest key]
    simp only [List.mem_cons, exists_eq_or_imp]
termination_by structural items

theorem mem_entryKeys_iff (entries : List (Node × Node)) (key : Node) :
    key ∈ entryKeys entries ↔ ∃ entry ∈ entries, key = entry.1 ∨ entry.2.HasKey key := by
  cases entries with
  | nil => simp [entryKeys]
  | cons entry rest =>
    cases entry with
    | mk first node =>
      rw [entryKeys, List.mem_cons, List.mem_append, mem_keys_iff node key,
        mem_entryKeys_iff rest key]
      simp only [List.mem_cons, exists_eq_or_imp, or_assoc]
termination_by structural entries

end

/-! ### The first fault -/

theorem faultOf?_entryName (key : Node) :
    faultOf? key.entryName = if key.untagged.isCollection then some key.untagged else none := by
  cases key with
  | tagged tag node => exact faultOf?_entryName node
  | _ => rfl
termination_by structural key

theorem firstCollection_cons (key : Node) (more : List Node) :
    firstCollection (key :: more) = (faultOf? key.entryName).or (firstCollection more) := by
  rw [faultOf?_entryName, firstCollection, List.map_cons]
  by_cases h : key.untagged.isCollection
  · rw [List.find?_cons_of_pos h, if_pos h, Option.some_or]
  · rw [List.find?_cons_of_neg h, if_neg h, Option.none_or]
    rfl

mutual

theorem faultOf?_toValue (node : Node) : faultOf? node.toValue = firstCollection node.keys := by
  cases node with
  | sequence items => rw [toValue, keys, faultOf?_map, faultOf?_toItems items]
  | mapping entries => rw [toValue, keys, faultOf?_map, faultOf?_toFields entries]
  | tagged tag node => exact faultOf?_toValue node
  | _ => rfl
termination_by structural node

theorem faultOf?_toItems (items : List Node) :
    faultOf? (toItems items) = firstCollection (itemKeys items) := by
  cases items with
  | nil => rfl
  | cons node rest =>
    have hrest : ∀ v, faultOf? (toItems rest >>= fun vs => pure (v :: vs)) =
        firstCollection (itemKeys rest) := by
      intro v
      rw [faultOf?_bind_pure, faultOf?_toItems rest]
    rw [toItems, faultOf?_bind hrest, itemKeys, firstCollection_append, faultOf?_toValue node]
termination_by structural items

theorem faultOf?_toFields (entries : List (Node × Node)) :
    faultOf? (toFields entries) = firstCollection (entryKeys entries) := by
  cases entries with
  | nil => rfl
  | cons entry rest =>
    cases entry with
    | mk key node =>
      have hrest : ∀ name v, faultOf? (toFields rest >>= fun fs => pure ((name, v) :: fs)) =
          firstCollection (entryKeys rest) := by
        intro name v
        rw [faultOf?_bind_pure, faultOf?_toFields rest]
      have hvalue : ∀ name, faultOf? (node.toValue >>= fun v =>
          toFields rest >>= fun fs => pure ((name, v) :: fs)) =
          firstCollection (keys node ++ entryKeys rest) := by
        intro name
        rw [faultOf?_bind (hrest name), firstCollection_append, faultOf?_toValue node]
      rw [toFields, faultOf?_bind hvalue, entryKeys, firstCollection_cons]
termination_by structural entries

end

/-! ### What a tree says -/

/-- The name of the entry that a key stands for. -/
inductive Names : Node → String → Prop
  | null : Names null "null"
  | yes : Names (boolean true) "true"
  | no : Names (boolean false) "false"
  | integer (n : Int) : Names (integer n) (integerText n)
  | float (x : Binary64) : Names (float x) (floatText x)
  | string (s : String) : Names (string s) s
  | tagged {tag : String} {key : Node} {name : String} :
      Names key name → Names (tagged tag key) name

/-- Entries brought together by their names: the names in the order in which they first come, each
with the value that comes last under it. -/
structure Collects (named : List (String × Value)) (fields : Fields Value) : Prop where
  names_eq : fields.names = (Fields.names named).eraseDups
  get?_eq : ∀ name, fields.get? name = Fields.get? name named.reverse

mutual

/-- The document value that a tree stands for. -/
inductive Says : Node → Value → Prop
  | null : Says null .null
  | boolean (b : Bool) : Says (boolean b) (.boolean b)
  | integer (i : Int64) : Says (integer i.toInt) (.integer i)
  | wide {n : Int} : (∀ i : Int64, i.toInt ≠ n) → Says (integer n) (.float (Binary64.ofInt n))
  | float (x : Binary64) : Says (float x) (.float x)
  | string (s : String) : Says (string s) (.string s)
  | sequence {items : List Node} {values : List Value} :
      ItemsSay items values → Says (sequence items) (.sequence values)
  | mapping {entries : List (Node × Node)} {named fields : List (String × Value)} :
      EntriesSay entries named → Collects named fields → Says (mapping entries) (.mapping fields)
  | tagged {tag : String} {node : Node} {v : Value} : Says node v → Says (tagged tag node) v

/-- One value for each item. -/
inductive ItemsSay : List Node → List Value → Prop
  | nil : ItemsSay [] []
  | cons {node : Node} {v : Value} {items : List Node} {values : List Value} :
      Says node v → ItemsSay items values → ItemsSay (node :: items) (v :: values)

/-- One named value for each entry. -/
inductive EntriesSay : List (Node × Node) → List (String × Value) → Prop
  | nil : EntriesSay [] []
  | cons {key node : Node} {name : String} {v : Value} {entries : List (Node × Node)}
      {named : List (String × Value)} : Names key name → Says node v → EntriesSay entries named →
      EntriesSay ((key, node) :: entries) ((name, v) :: named)

end

theorem entryName_eq_ok_iff (key : Node) (name : String) :
    key.entryName = .ok name ↔ Names key name := by
  cases key with
  | tagged tag node =>
    have ih := entryName_eq_ok_iff node name
    refine ⟨fun h => .tagged (ih.1 h), fun h => ?_⟩
    cases h with
    | tagged h => exact ih.2 h
  | boolean b =>
    constructor
    · rintro ⟨⟩
      cases b
      · exact .no
      · exact .yes
    · rintro ⟨⟩ <;> rfl
  | sequence items => constructor <;> rintro ⟨⟩
  | mapping entries => constructor <;> rintro ⟨⟩
  | _ =>
    constructor
    · rintro ⟨⟩
      constructor
    · rintro ⟨⟩
      rfl
termination_by structural key

theorem collects_ofList (named : List (String × Value)) : Collects named (Fields.ofList named) :=
  ⟨Fields.names_ofList named, fun name => Fields.get?_ofList name named⟩

theorem Collects.eq_ofList {named : List (String × Value)} {fields : Fields Value}
    (h : Collects named fields) : fields = Fields.ofList named := by
  refine Fields.eq_of_get? (h.names_eq.trans (Fields.names_ofList named).symm) ?_ fun name => ?_
  · rw [h.names_eq]
    exact nodup_eraseDups _
  · rw [h.get?_eq, Fields.get?_ofList]

theorem toValue_integer_iff {n : Int} {v : Value} :
    (integer n).toValue = .ok v ↔ Says (integer n) v := by
  constructor
  · rintro ⟨⟩
    by_cases hn : ∃ i : Int64, i.toInt = n
    · obtain ⟨i, rfl⟩ := hn
      rw [Literal.ofInt_toInt]
      exact .integer i
    · rw [Literal.ofInt_of_wide (not_exists.1 hn)]
      exact .wide (not_exists.1 hn)
  · intro h
    cases h with
    | integer i => rw [toValue, Literal.ofInt_toInt, Literal.toValue]
    | wide hwide => rw [toValue, Literal.ofInt_of_wide hwide, Literal.toValue]

mutual

theorem toValue_eq_ok_iff (node : Node) (v : Value) : node.toValue = .ok v ↔ Says node v := by
  cases node with
  | integer n => exact toValue_integer_iff
  | sequence items =>
    rw [toValue, map_eq_ok]
    constructor
    · rintro ⟨values, h, rfl⟩
      exact .sequence ((toItems_eq_ok_iff items values).1 h)
    · intro h
      cases h with
      | sequence h => exact ⟨_, (toItems_eq_ok_iff items _).2 h, rfl⟩
  | mapping entries =>
    rw [toValue, map_eq_ok]
    constructor
    · rintro ⟨named, h, rfl⟩
      exact .mapping ((toFields_eq_ok_iff entries named).1 h) (collects_ofList named)
    · intro h
      cases h with
      | mapping h hfields =>
        exact ⟨_, (toFields_eq_ok_iff entries _).2 h, congrArg _ hfields.eq_ofList.symm⟩
  | tagged tag node =>
    have ih := toValue_eq_ok_iff node v
    refine ⟨fun h => .tagged (ih.1 h), fun h => ?_⟩
    cases h with
    | tagged h => exact ih.2 h
  | _ =>
    constructor
    · rintro ⟨⟩
      constructor
    · rintro ⟨⟩
      rfl
termination_by structural node

theorem toItems_eq_ok_iff (items : List Node) (values : List Value) :
    toItems items = .ok values ↔ ItemsSay items values := by
  cases items with
  | nil =>
    constructor
    · rintro ⟨⟩
      exact .nil
    · rintro ⟨⟩
      rfl
  | cons node rest =>
    simp only [toItems, bind_eq_ok, toValue_eq_ok_iff node, toItems_eq_ok_iff rest]
    constructor
    · rintro ⟨v, hv, vs, hvs, ⟨⟩⟩
      exact .cons hv hvs
    · intro h
      cases h with
      | cons hv hvs => exact ⟨_, hv, _, hvs, rfl⟩
termination_by structural items

theorem toFields_eq_ok_iff (entries : List (Node × Node)) (named : List (String × Value)) :
    toFields entries = .ok named ↔ EntriesSay entries named := by
  cases entries with
  | nil =>
    constructor
    · rintro ⟨⟩
      exact .nil
    · rintro ⟨⟩
      rfl
  | cons entry rest =>
    cases entry with
    | mk key node =>
      simp only [toFields, bind_eq_ok, entryName_eq_ok_iff, toValue_eq_ok_iff node,
        toFields_eq_ok_iff rest]
      constructor
      · rintro ⟨name, hname, v, hv, fs, hfs, ⟨⟩⟩
        exact .cons hname hv hfs
      · intro h
        cases h with
        | cons hname hv hfs => exact ⟨_, hname, _, hv, _, hfs, rfl⟩
termination_by structural entries

end

/-! ### The conversion as a whole -/

theorem EntriesSay.forall₂ {named : List (String × Value)} (h : EntriesSay entries named) :
    List.Forall₂ (fun entry field => Names entry.1 field.1 ∧ Says entry.2 field.2)
      entries named := by
  induction entries generalizing named with
  | nil =>
    cases h with
    | nil => exact .nil
  | cons entry rest ih =>
    cases h with
    | cons hname hv hrest => exact .cons ⟨hname, hv⟩ (ih hrest)

theorem EntriesSay.exists_names {named : List (String × Value)} (h : EntriesSay entries named)
    {name : String} (hmem : name ∈ Fields.names named) : ∃ entry ∈ entries, Names entry.1 name := by
  induction entries generalizing named with
  | nil =>
    cases h with
    | nil => cases hmem
  | cons entry rest ih =>
    cases h with
    | cons hname hv hrest =>
      rcases List.mem_cons.1 hmem with rfl | hmem
      · exact ⟨_, List.mem_cons_self, hname⟩
      · obtain ⟨other, hother, hothername⟩ := ih hrest hmem
        exact ⟨other, List.mem_cons_of_mem _ hother, hothername⟩

/-- Keys with different texts give different names. -/
theorem EntriesSay.nodup_names {named : List (String × Value)} (h : EntriesSay entries named)
    (hkeys : entries.Pairwise fun a b => ∀ name, Names a.1 name → ¬ Names b.1 name) :
    (Fields.names named).Nodup := by
  induction entries generalizing named with
  | nil =>
    cases h with
    | nil => exact List.nodup_nil
  | cons entry rest ih =>
    obtain ⟨hfirst, hothers⟩ := List.pairwise_cons.1 hkeys
    cases h with
    | cons hname hv hrest =>
      refine List.nodup_cons.2 ⟨fun hmem => ?_, ih hrest hothers⟩
      obtain ⟨other, hother, hothername⟩ := hrest.exists_names hmem
      exact hfirst other hother _ hname hothername

/-- What becomes of a tree. The conversion fails exactly if a mapping at some depth has a key that
is a sequence or a mapping below its tags, and then with the first such key. Otherwise its result is
what the tree stands for, and a mapping whose keys have different texts keeps all its entries in
their order. -/
theorem toValue_spec (node : Node) :
    ((∃ key, node.toValue = .error key) ↔ ∃ key, node.HasKey key ∧ key.untagged.isCollection) ∧
    (∀ key, node.toValue = .error key ↔ firstCollection node.keys = some key) ∧
    (∀ v, node.toValue = .ok v ↔ Says node v) ∧
    ∀ entries fields, Says (mapping entries) (.mapping fields) →
      (entries.Pairwise fun a b => ∀ name, Names a.1 name → ¬ Names b.1 name) →
      List.Forall₂ (fun entry field => Names entry.1 field.1 ∧ Says entry.2 field.2)
        entries fields := by
  have hfault : ∀ key, node.toValue = .error key ↔ firstCollection node.keys = some key := by
    intro key
    rw [← faultOf?_toValue, faultOf?_eq_some_iff]
  refine ⟨?_, hfault, toValue_eq_ok_iff node, fun entries fields h hkeys => ?_⟩
  · simp only [hfault, ← mem_keys_iff]
    rw [← Option.ne_none_iff_exists', ne_eq, firstCollection_eq_none_iff]
    push Not
    rfl
  · cases h with
    | mapping hentries hfields =>
      rw [hfields.eq_ofList, Fields.ofList_of_nodup (hentries.nodup_names hkeys)]
      exact hentries.forall₂

/-- Keys of one text at the outside and a mapping of two texts below them; and a tree in which the
key that counts stands below a tag, in the value of a key before the next one. -/
theorem toValue_spec_marks :
    let inner := [(null, integer 9223372036854775808), (tagged "t" (boolean true), null)]
    let outer := mapping [(integer 1, string "a"), (string "0", mapping inner),
      (tagged "u" (tagged "t" (string "1")), string "c")]
    let bad := sequence [integer 1, tagged "t" (mapping
      [(null, mapping [(tagged "u" (sequence []), null)]), (mapping [], null)])]
    let fields := [("null", Value.float (Binary64.ofInt 9223372036854775808)), ("true", .null)]
    Says outer (.mapping [("1", .string "c"), ("0", .mapping fields)]) ∧
    List.Forall₂ (fun entry field => Names entry.1 field.1 ∧ Says entry.2 field.2) inner fields ∧
    (∃ key, bad.HasKey key ∧ key.untagged.isCollection) ∧
    firstCollection bad.keys = some (sequence []) := by
  intro inner outer bad fields
  have hinner : Says (mapping inner) (.mapping fields) :=
    ((toValue_spec (mapping inner)).2.2.1 _).1 rfl
  have hkeys : inner.Pairwise fun a b => ∀ name, Names a.1 name → ¬ Names b.1 name := by
    refine List.pairwise_pair.2 ?_
    intro name hnull htrue
    have hname : entryName null = .ok name := (entryName_eq_ok_iff _ _).2 hnull
    have hother : entryName (tagged "t" (boolean true)) = .ok name :=
      (entryName_eq_ok_iff _ _).2 htrue
    have htext : "null" = "true" := Except.ok.inj (hname.trans hother.symm)
    exact absurd htext (by decide)
  exact ⟨((toValue_spec outer).2.2.1 _).1 rfl,
    (toValue_spec (mapping inner)).2.2.2 inner fields hinner hkeys,
    (toValue_spec bad).1.1 ⟨_, rfl⟩, ((toValue_spec bad).2.1 _).1 rfl⟩

end Node

end DocMatch.Yaml
