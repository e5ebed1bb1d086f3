import DocMatch.Proofs.Result
import DocMatch.Proofs.Value.Branch

/-!
Laws of setting fields. A replacement sets one field in every row that its path leads to, and what
it makes is a branch, on which more can be done:

    rows      {x: 1, u: "m"}    {u: "s"}
    x = 5     {x: 5, u: "m"}    {u: "s", x: 5}       in place, or at the end

Set twice, a field has its last value and the place of its first. A field that was set matches what
it was set to, unless this is no number. Filters by one field and replacements of another can change
places. So can two replacements, up to the order of two fields that are both new to a row.
-/

namespace DocMatch

namespace Value

variable {v r : Value} {path : Path} {items made : List Value} {rows : List (Fields Value)}
  {row : Fields Value} {field f g : String} {l a b : Literal}

/-! ### Rows -/

/-- A row with a field set to a literal. -/
def withField (field : String) (l : Literal) (row : Fields Value) : Value :=
  mapping (Fields.put field l.toValue row)

theorem entries_eq_ok_iff {item : Value} : entries field item = .ok row ↔ item = mapping row := by
  constructor
  · intro h
    cases item with
    | mapping fields => exact congrArg mapping (Except.ok.inj h)
    | _ => cases h
  · rintro rfl
    rfl

/-- All elements are rows, or there is an error. -/
theorem mapM_entries_eq_ok_iff :
    items.mapM (entries field) = .ok rows ↔ items = rows.map mapping := by
  induction items generalizing rows with
  | nil =>
    rw [List.mapM_nil]
    constructor
    · rintro ⟨⟩
      rfl
    · intro h
      rw [List.map_eq_nil_iff.1 h.symm]
      rfl
  | cons item rest ih =>
    rw [List.mapM_cons, bind_eq_ok]
    constructor
    · rintro ⟨row, hrow, hmore⟩
      obtain ⟨more, hrest, ⟨⟩⟩ := bind_eq_ok.1 hmore
      rw [entries_eq_ok_iff.1 hrow, ih.1 hrest]
      rfl
    · intro h
      obtain ⟨row, more, rfl, rfl, rfl⟩ := List.map_eq_cons_iff.1 h.symm
      exact ⟨row, rfl, bind_eq_ok.2 ⟨more, ih.2 rfl, rfl⟩⟩

/-- A replacement fails for its elements alone, whatever it sets the field to. -/
theorem assign_eq_map (field : String) (l : Literal) (items : List Value) :
    assign field l items = (items.mapM (entries field)).map (List.map (withField field l)) := by
  induction items with
  | nil => rfl
  | cons item rest ih =>
    rw [assign, ih, List.mapM_cons]
    cases entries field item with
    | error e => rfl
    | ok row => cases rest.mapM (entries field) <;> rfl

theorem assign_eq_ok_iff :
    assign field l items = .ok made ↔
      ∃ rows : List (Fields Value), items = rows.map mapping ∧
        made = rows.map (withField field l) := by
  rw [assign_eq_map]
  constructor
  · intro h
    cases hrows : items.mapM (entries field) with
    | error e =>
      rw [hrows] at h
      cases h
    | ok rows =>
      rw [hrows] at h
      cases h
      exact ⟨rows, mapM_entries_eq_ok_iff.1 hrows, rfl⟩
  · rintro ⟨rows, hrows, rfl⟩
    rw [mapM_entries_eq_ok_iff.2 hrows]
    rfl

theorem assign_rows (field : String) (l : Literal) (rows : List (Fields Value)) :
    assign field l (rows.map mapping) = .ok (rows.map (withField field l)) :=
  assign_eq_ok_iff.2 ⟨rows, rfl, rfl⟩

/-- Elements that all have a field are rows that all have it. -/
theorem AllHave.exists_rows (h : AllHave field items) :
    ∃ rows : List (Fields Value), items = rows.map mapping ∧
      ∀ row ∈ rows, field ∈ Fields.names row := by
  induction items with
  | nil => exact ⟨[], rfl, nofun⟩
  | cons item rest ih =>
    obtain ⟨hitem, hrest⟩ := List.forall_mem_cons.1 h
    obtain ⟨rows, rfl, hrows⟩ := ih hrest
    cases item with
    | mapping row => exact ⟨row :: rows, rfl, List.forall_mem_cons.2 ⟨hitem, hrows⟩⟩
    | _ => exact hitem.elim

/-! ### Replacements on a branch -/

/-- A replacement succeeds if its path leads to rows, and then sets the field in each of them. -/
theorem replace_eq_ok_iff :
    v.replace (path ++ [.key field]) (some l) = .ok r ↔
      ∃ rows : List (Fields Value), v.navigate path = .ok (sequence (rows.map mapping)) ∧
        r = wrapAll path (sequence (rows.map (withField field l))) := by
  constructor
  · intro h
    cases hw : v.navigate path with
    | error e =>
      rw [replace, walk_concat_of_error (.key field) assign hw] at h
      cases h
    | ok w =>
      rw [replace, walk_concat_of_ok (.key field) assign hw] at h
      cases w with
      | sequence items =>
        rw [editElements_sequence] at h
        cases hassign : assign field l items with
        | error e =>
          rw [hassign] at h
          cases h
        | ok made =>
          rw [hassign] at h
          cases h
          obtain ⟨rows, rfl, rfl⟩ := assign_eq_ok_iff.1 hassign
          exact ⟨rows, rfl, rfl⟩
      | _ => cases h
  · rintro ⟨rows, hw, rfl⟩
    rw [replace, walk_concat_of_ok (.key field) assign hw, editElements_sequence, assign_rows]
    rfl

/-- On a branch that ends in rows a replacement sets the field in each. -/
theorem replace_wrapAll (path : Path) (field : String) (l : Literal)
    (rows : List (Fields Value)) :
    (wrapAll path (sequence (rows.map mapping))).replace (path.kept ++ [.key field]) (some l) =
      .ok (wrapAll path (sequence (rows.map (withField field l)))) :=
  replace_eq_ok_iff.2 ⟨rows, navigate_wrapAll path _, (wrapAll_kept path _).symm⟩

/-- Whether a replacement succeeds, and if not why, does not depend on what it sets the field to. -/
theorem replace_error_of_error {e : WalkError} (b : Literal)
    (h : v.replace (path ++ [.key field]) (some a) = .error e) :
    v.replace (path ++ [.key field]) (some b) = .error e := by
  cases hw : v.navigate path with
  | error e' =>
    rw [replace, walk_concat_of_error (.key field) assign hw] at h ⊢
    exact h
  | ok w =>
    rw [replace, walk_concat_of_ok (.key field) assign hw] at h ⊢
    cases w with
    | sequence items =>
      rw [editElements_sequence, assign_eq_map] at h ⊢
      cases hrows : items.mapM (entries field) with
      | error e' =>
        rw [hrows] at h
        exact h
      | ok rows =>
        rw [hrows] at h
        cases h
    | _ => exact h

/-! ### What was set is matched -/

/-- Only what is no number differs from itself. -/
theorem matchesLiteral_toValue (l : Literal) :
    l.toValue.matchesLiteral l = true ↔ l ≠ .float .nan := by
  cases l with
  | integer n => simp [Literal.toValue, matchesLiteral]
  | string s => simp [Literal.toValue, matchesLiteral]
  | float x => cases x <;> simp [Literal.toValue, matchesLiteral, Binary64.equals]

theorem fieldMatches_withField_self (field : String) (l : Literal) (row : Fields Value) :
    fieldMatches field l (withField field l row) = l.toValue.matchesLiteral l := by
  rw [withField, fieldMatches, Fields.get?_put_self, Option.any_some]

/-- Setting one field does not change whether another matches. -/
theorem fieldMatches_withField_of_ne (h : f ≠ g) (a b : Literal) (row : Fields Value) :
    fieldMatches f a (withField g b row) = fieldMatches f a (mapping row) := by
  rw [withField, fieldMatches, fieldMatches, Fields.get?_put_of_ne h.symm]

theorem allHave_withField (h : ∀ row ∈ rows, field = g ∨ field ∈ Fields.names row)
    (l : Literal) : AllHave field (rows.map (withField g l)) := by
  intro item hitem
  obtain ⟨row, hrow, rfl⟩ := List.mem_map.1 hitem
  exact Fields.mem_names_put.2 ((h row hrow).imp_left Eq.symm)

/-! ### The laws -/

/-- The branch that a replacement leaves, as rows: each with its field set. -/
theorem map_withField (field : String) (l : Literal) (rows : List (Fields Value)) :
    rows.map (withField field l) = (rows.map (Fields.put field l.toValue)).map mapping := by
  rw [List.map_map]
  rfl

/-- Replacing a field again, on the branch that the first replacement left, comes to the second
replacement alone. -/
theorem replace_replace_self (v : Value) (path : Path) (field : String) (a b : Literal) :
    (do
      let r ← v.replace (path ++ [.key field]) (some a)
      r.replace (path.kept ++ [.key field]) (some b)) =
      v.replace (path ++ [.key field]) (some b) := by
  cases h : v.replace (path ++ [.key field]) (some a) with
  | error e => exact (replace_error_of_error b h).symm
  | ok r =>
    obtain ⟨rows, hrows, rfl⟩ := replace_eq_ok_iff.1 h
    show (wrapAll path _).replace _ _ = _
    rw [map_withField, replace_wrapAll, List.map_map, replace_eq_ok_iff.2 ⟨rows, hrows, rfl⟩]
    have hlast : withField field b ∘ Fields.put field a.toValue = withField field b :=
      funext fun row => congrArg mapping (Fields.put_put_self field a.toValue b.toValue row)
    rw [hlast]

/-- A filter by the literal that a field was set to keeps every row, or none if the literal is no
number. -/
theorem filter_replace_self (h : v.replace (path ++ [.key field]) (some l) = .ok r) :
    r.filter (path.kept ++ [.key field]) (some l) =
      .ok (if l = .float .nan then wrapAll path (sequence []) else r) := by
  obtain ⟨rows, _, rfl⟩ := replace_eq_ok_iff.1 h
  rw [filter_wrapAll path l (allHave_withField (fun _ _ => Or.inl rfl) l)]
  have hmatch : ∀ item ∈ rows.map (withField field l),
      fieldMatches field l item = l.toValue.matchesLiteral l := by
    intro item hitem
    obtain ⟨row, _, rfl⟩ := List.mem_map.1 hitem
    exact fieldMatches_withField_self field l row
  by_cases hl : l = .float .nan
  · have hnone : l.toValue.matchesLiteral l = false := by
      rw [← Bool.not_eq_true, matchesLiteral_toValue, not_not]
      exact hl
    have hfilter : (rows.map (withField field l)).filter (fieldMatches field l) = [] :=
      List.filter_eq_nil_iff.2 fun item hitem => by simp [hmatch item hitem, hnone]
    rw [hfilter, if_pos hl]
  · have hall : (rows.map (withField field l)).filter (fieldMatches field l) =
        rows.map (withField field l) :=
      List.filter_eq_self.2 fun item hitem =>
        (hmatch item hitem).trans ((matchesLiteral_toValue l).2 hl)
    rw [hall, if_neg hl]

/-- Filtering by one field and replacing another come to the same in either order. -/
theorem replace_filter_comm (hne : f ≠ g) (b : Literal)
    (h : v.filter (path ++ [.key f]) (some a) = .ok r) :
    ∃ s t, v.replace (path ++ [.key g]) (some b) = .ok s ∧
      r.replace (path.kept ++ [.key g]) (some b) = .ok t ∧
      s.filter (path.kept ++ [.key f]) (some a) = .ok t := by
  obtain ⟨items, hitems, hall, rfl⟩ := filter_eq_ok_iff.1 h
  obtain ⟨rows, rfl, hrows⟩ := hall.exists_rows
  have hmatch : fieldMatches f a ∘ withField g b = fieldMatches f a ∘ mapping :=
    funext (fieldMatches_withField_of_ne hne a b)
  refine ⟨_, _, replace_eq_ok_iff.2 ⟨rows, hitems, rfl⟩, ?_,
    filter_wrapAll path a (allHave_withField (fun row hrow => Or.inr (hrows row hrow)) b)⟩
  rw [List.filter_map, List.filter_map, replace_wrapAll, hmatch]

/-- Replacing two fields comes to the same rows in either order, but for the order of the two fields
in a row that had neither. -/
theorem replace_replace_comm (hne : f ≠ g) (b : Literal)
    (h : v.replace (path ++ [.key f]) (some a) = .ok r) :
    ∃ s, v.replace (path ++ [.key g]) (some b) = .ok s ∧
      ∃ (rows : List (Fields Value)) (one other : Fields Value → Fields Value),
        v.navigate path = .ok (sequence (rows.map mapping)) ∧
        r.replace (path.kept ++ [.key g]) (some b) =
          .ok (wrapAll path (sequence (rows.map fun row => mapping (one row)))) ∧
        s.replace (path.kept ++ [.key f]) (some a) =
          .ok (wrapAll path (sequence (rows.map fun row => mapping (other row)))) ∧
        ∀ row ∈ rows, (one row).Perm (other row) ∧
          (∀ name, (one row).get? name = (other row).get? name) ∧
          (f ∈ row.names ∨ g ∈ row.names → one row = other row) := by
  obtain ⟨rows, hrows, rfl⟩ := replace_eq_ok_iff.1 h
  refine ⟨_, replace_eq_ok_iff.2 ⟨rows, hrows, rfl⟩, rows,
    fun row => Fields.put g b.toValue (Fields.put f a.toValue row),
    fun row => Fields.put f a.toValue (Fields.put g b.toValue row), hrows, ?_, ?_, ?_⟩
  · rw [map_withField, replace_wrapAll, List.map_map]
    rfl
  · rw [map_withField, replace_wrapAll, List.map_map]
    rfl
  · intro row _
    exact ⟨Fields.put_put_perm hne.symm _ _ row,
      fun name => Fields.get?_put_comm hne.symm _ _ name row,
      fun hmem => Fields.put_comm hne.symm hmem.symm _ _⟩

/-- Replacing a field twice comes to the last replacement, in place. A filter by what a field was set
to keeps all rows, or none if that is no number. A filter by one field that succeeds and a
replacement of another come to the same in either order. And so do replacements of two fields, where
a row has the same entries, in the same order too unless it had neither of them. What is done second
follows the path on which the branch is found that was left by what is done first. -/
theorem replace_laws (v : Value) (path : Path) {f g : String} (hne : f ≠ g) (a b : Literal) :
    ((do
      let r ← v.replace (path ++ [.key f]) (some a)
      r.replace (path.kept ++ [.key f]) (some b)) =
      v.replace (path ++ [.key f]) (some b)) ∧
    (∀ r, v.replace (path ++ [.key f]) (some a) = .ok r →
      r.filter (path.kept ++ [.key f]) (some a) =
        .ok (if a = .float .nan then wrapAll path (sequence []) else r)) ∧
    (∀ r, v.filter (path ++ [.key f]) (some a) = .ok r →
      ∃ s t, v.replace (path ++ [.key g]) (some b) = .ok s ∧
        r.replace (path.kept ++ [.key g]) (some b) = .ok t ∧
        s.filter (path.kept ++ [.key f]) (some a) = .ok t) ∧
    ∀ r, v.replace (path ++ [.key f]) (some a) = .ok r →
      ∃ s, v.replace (path ++ [.key g]) (some b) = .ok s ∧
        ∃ (rows : List (Fields Value)) (one other : Fields Value → Fields Value),
          v.navigate path = .ok (sequence (rows.map mapping)) ∧
          r.replace (path.kept ++ [.key g]) (some b) =
            .ok (wrapAll path (sequence (rows.map fun row => mapping (one row)))) ∧
          s.replace (path.kept ++ [.key f]) (some a) =
            .ok (wrapAll path (sequence (rows.map fun row => mapping (other row)))) ∧
          ∀ row ∈ rows, (one row).Perm (other row) ∧
            (∀ name, (one row).get? name = (other row).get? name) ∧
            (f ∈ row.names ∨ g ∈ row.names → one row = other row) := by
  refine ⟨replace_replace_self v path f a b, ?_, ?_, ?_⟩
  · intro r hr
    exact filter_replace_self hr
  · intro r hr
    exact replace_filter_comm hne b hr
  · intro r hr
    exact replace_replace_comm hne b hr

/-- Rows of which the first has neither a measure nor a unit, and the second no measure. -/
def unmeasured : List Value :=
  [mapping [("note", null)], mapping [("unit", string "s")], Value.row (integer 2) "m"]

/-- Of rows whose measure was set to what is no number a filter by it keeps none. Set in either
order, measure and unit end up in another order in the first row, which had neither. And if each row
has a measure, the unit can be set before or after those that measure one are kept. -/
theorem replace_laws_unmeasured :
    let path : Path := [.key "parts", .index 1]
    let metre : Literal := .string "m"
    let later := [mapping [("unit", string "m"), ("x", float .nan)],
      mapping [("x", float .nan), ("unit", string "m")]]
    "x" ≠ "unit" ∧
    (∃ r s, (report unmeasured).replace (path ++ [.key "x"]) (some (.float .nan)) = .ok r ∧
      (report unmeasured).replace (path ++ [.key "unit"]) (some metre) = .ok s ∧
      r.filter (path.kept ++ [.key "x"]) (some (.float .nan)) = .ok (wrapAll path (sequence [])) ∧
      r.replace (path.kept ++ [.key "unit"]) (some metre) = .ok (wrapAll path (sequence
        (mapping [("note", null), ("x", float .nan), ("unit", string "m")] :: later))) ∧
      s.replace (path.kept ++ [.key "x"]) (some (.float .nan)) = .ok (wrapAll path (sequence
        (mapping [("note", null), ("unit", string "m"), ("x", float .nan)] :: later)))) ∧
    ∃ r s t, (report measured).filter (path ++ [.key "x"]) (some (.integer 1)) = .ok r ∧
      (report measured).replace (path ++ [.key "unit"]) (some metre) = .ok s ∧
      r.replace (path.kept ++ [.key "unit"]) (some metre) = .ok t ∧
      s.filter (path.kept ++ [.key "x"]) (some (.integer 1)) = .ok t := by
  intro path metre later
  have hne : "x" ≠ "unit" := by decide
  refine ⟨hne, ?_, ?_⟩
  · obtain ⟨_, hnan, _, horder⟩ := replace_laws (report unmeasured) path hne (.float .nan) metre
    obtain ⟨s, hs, _⟩ := horder _ rfl
    exact ⟨_, s, rfl, hs, hnan _ rfl, rfl, by cases hs; rfl⟩
  · obtain ⟨_, _, hcomm, _⟩ := replace_laws (report measured) path hne (.integer 1) metre
    have hpath : (report measured).navigate path = .ok (sequence measured) := rfl
    have hx : AllHave "x" measured := by
      simp [AllHave, HasField, measured, Value.row]
    have hkept := (filter_eq_ok_iff (l := .integer 1)).2 ⟨measured, hpath, hx, rfl⟩
    obtain ⟨s, t, hs, ht, ht'⟩ := hcomm _ hkept
    exact ⟨_, s, t, hkept, hs, ht, ht'⟩

end Value

end DocMatch
