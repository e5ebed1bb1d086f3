import DocMatch.Fields
import Mathlib.Data.List.Induction
import Mathlib.Data.List.Nodup

/-!
Laws of named entries: entries after entries, entries under distinct names, names written twice or
in another order, and entries read from left to right.
-/

namespace DocMatch

/-! ### Names in the order in which they first come -/

section

variable {asked : List String} {name : String}

theorem eraseDups_concat :
    (asked ++ [name]).eraseDups =
      if name ∈ asked then asked.eraseDups else asked.eraseDups ++ [name] := by
  rw [List.eraseDups_append]
  by_cases h : name ∈ asked
  · simp [List.removeAll, h]
  · simp [List.removeAll, h, List.eraseDups_cons]

theorem nodup_eraseDups (asked : List String) : asked.eraseDups.Nodup := by
  induction asked using List.reverseRecOn with
  | nil => exact List.nodup_nil
  | append_singleton asked name ih =>
    rw [eraseDups_concat]
    by_cases h : name ∈ asked
    · rwa [if_pos h]
    · rw [if_neg h, List.nodup_append]
      refine ⟨ih, List.nodup_singleton name, fun x hx y hy hxy => h ?_⟩
      rw [← List.mem_singleton.1 hy, ← hxy]
      exact List.mem_eraseDups.1 hx

theorem eraseDups_of_nodup (h : asked.Nodup) : asked.eraseDups = asked := by
  induction asked using List.reverseRecOn with
  | nil => rfl
  | append_singleton asked name ih =>
    obtain ⟨hasked, _, hapart⟩ := List.nodup_append.1 h
    have hname : name ∉ asked := fun hmem => hapart name hmem name List.mem_cons_self rfl
    rw [eraseDups_concat, if_neg hname, ih hasked]

end

namespace Fields

variable {α : Type} {fields : Fields α} {name other : String}

@[simp] theorem names_append (fields more : Fields α) :
    names (fields ++ more) = fields.names ++ more.names :=
  List.map_append

theorem get?_append (name : String) (fields more : Fields α) :
    (fields ++ more).get? name = (fields.get? name).or (more.get? name) := by
  induction fields with
  | nil => rfl
  | cons entry rest ih =>
    by_cases h : entry.1 = name
    · simp [get?, h]
    · simp [get?, h, ih]

/-- What is found in some entries is found in all that begin with them. -/
theorem get?_of_prefix {fields longer : Fields α} (h : fields <+: longer) {name : String} {v : α}
    (hv : fields.get? name = some v) : longer.get? name = some v := by
  obtain ⟨more, rfl⟩ := h
  rw [get?_append, hv]
  rfl

theorem mem_of_get? {fields : Fields α} {name : String} {v : α} (h : fields.get? name = some v) :
    (name, v) ∈ fields := by
  induction fields with
  | nil => cases h
  | cons entry rest ih =>
    by_cases hk : entry.1 = name
    · simp only [get?, hk, if_true, Option.some.injEq] at h
      exact List.mem_cons.2 (Or.inl (by rw [← hk, ← h]))
    · simp only [get?, hk, if_false] at h
      exact List.mem_cons_of_mem _ (ih h)

theorem mem_names_of_get? {fields : Fields α} {name : String} {v : α}
    (h : fields.get? name = some v) : name ∈ fields.names :=
  get?_isSome.1 (Option.isSome_of_mem h)

/-- With distinct names every entry is found under its name. -/
theorem get?_eq_some_iff (h : fields.names.Nodup) {v : α} :
    fields.get? name = some v ↔ (name, v) ∈ fields := by
  refine ⟨mem_of_get?, fun hmem => ?_⟩
  induction fields with
  | nil => cases hmem
  | cons entry rest ih =>
    obtain ⟨hfirst, hrest⟩ := List.nodup_cons.1 h
    rcases List.mem_cons.1 hmem with rfl | hmem
    · simp [get?]
    · have hne : entry.1 ≠ name := by
        rintro rfl
        exact hfirst (List.mem_map.2 ⟨_, hmem, rfl⟩)
      simpa [get?, hne] using ih hrest hmem

/-! ### Writing twice -/

/-- Of two values written under one name the last counts, in the place of the first. -/
theorem put_put_self (name : String) (old new : α) (fields : Fields α) :
    put name new (put name old fields) = put name new fields := by
  induction fields with
  | nil => simp [put]
  | cons entry rest ih =>
    by_cases hk : entry.1 = name
    · simp [put, hk]
    · simp [put, hk, ih]

/-- Writing a name that is there and writing another can change places. -/
theorem put_comm_of_mem (hne : name ≠ other) (hmem : name ∈ names fields) (v w : α) :
    put name v (put other w fields) = put other w (put name v fields) := by
  induction fields with
  | nil => exact absurd hmem List.not_mem_nil
  | cons entry rest ih =>
    obtain ⟨k, old⟩ := entry
    by_cases hname : k = name
    · subst hname
      simp [put, hne]
    · have hrest : name ∈ names rest := (List.mem_cons.1 hmem).resolve_left (Ne.symm hname)
      by_cases hother : k = other
      · subst hother
        simp [put, hname]
      · simp [put, hname, hother, ih hrest]

theorem put_comm (hne : name ≠ other) (hmem : name ∈ names fields ∨ other ∈ names fields)
    (v w : α) : put name v (put other w fields) = put other w (put name v fields) := by
  rcases hmem with hmem | hmem
  · exact put_comm_of_mem hne hmem v w
  · exact (put_comm_of_mem hne.symm hmem w v).symm

theorem get?_put (name other : String) (value : α) (fields : Fields α) :
    get? other (put name value fields) = if name = other then some value else get? other fields := by
  by_cases h : name = other
  · rw [if_pos h, ← h, get?_put_self]
  · rw [if_neg h, get?_put_of_ne h]

theorem mem_names_put {value : α} :
    other ∈ names (put name value fields) ↔ name = other ∨ other ∈ names fields := by
  rw [← get?_isSome, get?_put, ← get?_isSome]
  by_cases h : name = other <;> simp [h]

/-- Whatever the order in which two names are written, there are the same entries. -/
theorem put_put_perm (hne : name ≠ other) (v w : α) (fields : Fields α) :
    (put name v (put other w fields)).Perm (put other w (put name v fields)) := by
  by_cases hmem : name ∈ names fields ∨ other ∈ names fields
  · rw [put_comm hne hmem]
  · -- both are new, and the one that is written last comes last
    obtain ⟨hname, hother⟩ := not_or.1 hmem
    have hname' : name ∉ names (put other w fields) := by
      rw [mem_names_put]
      exact not_or.2 ⟨hne.symm, hname⟩
    have hother' : other ∉ names (put name v fields) := by
      rw [mem_names_put]
      exact not_or.2 ⟨hne, hother⟩
    rw [put_of_not_mem hname', put_of_not_mem hother, put_of_not_mem hother',
      put_of_not_mem hname, List.append_assoc, List.append_assoc]
    exact (List.Perm.swap _ _ []).append_left fields

theorem get?_put_comm (hne : name ≠ other) (v w : α) (asked : String) (fields : Fields α) :
    get? asked (put name v (put other w fields)) = get? asked (put other w (put name v fields)) := by
  simp only [get?_put]
  by_cases hname : name = asked
  · subst hname
    simp [hne.symm]
  · simp [hname]

/-! ### Writing from left to right -/

theorem foldl_put_of_nodup {start entries : Fields α} (h : (names (start ++ entries)).Nodup) :
    entries.foldl (fun fields entry => put entry.1 entry.2 fields) start = start ++ entries := by
  induction entries generalizing start with
  | nil => exact (List.append_nil start).symm
  | cons entry rest ih =>
    have hnew : entry.1 ∉ names start := by
      rw [names, List.map_append, List.map_cons, List.nodup_append] at h
      exact fun hmem => h.2.2 _ hmem _ List.mem_cons_self rfl
    rw [List.append_cons] at h
    rw [List.foldl_cons, put_of_not_mem hnew, ih h, ← List.append_cons]

/-- Entries of distinct names stay as they are. -/
theorem ofList_of_nodup {entries : Fields α} (h : (names entries).Nodup) :
    ofList entries = entries :=
  foldl_put_of_nodup h

theorem ofList_concat (entries : List (String × α)) (entry : String × α) :
    ofList (entries ++ [entry]) = put entry.1 entry.2 (ofList entries) := by
  rw [ofList, List.foldl_concat]
  rfl

/-- Entries that are written one after the other stand in the order in which their names first
came. -/
theorem names_ofList (entries : List (String × α)) :
    (ofList entries).names = (names entries).eraseDups := by
  induction entries using List.reverseRecOn with
  | nil => rfl
  | append_singleton entries entry ih =>
    have hnames : names (entries ++ [entry]) = names entries ++ [entry.1] := names_append entries _
    rw [ofList_concat, hnames, eraseDups_concat]
    by_cases hmem : entry.1 ∈ names entries
    · rw [if_pos hmem, names_put_of_mem (ih ▸ List.mem_eraseDups.2 hmem), ih]
    · have hnew : entry.1 ∉ (ofList entries).names := ih ▸ mt List.mem_eraseDups.1 hmem
      rw [if_neg hmem, put_of_not_mem hnew, names_append, ih]
      rfl

/-- Entries that are written one after the other have distinct names. -/
theorem nodup_names_ofList (entries : List (String × α)) : (ofList entries).names.Nodup :=
  names_ofList entries ▸ nodup_eraseDups _

/-- Of entries of one name the last is found. -/
theorem get?_ofList (name : String) (entries : List (String × α)) :
    (ofList entries).get? name = get? name entries.reverse := by
  induction entries using List.reverseRecOn with
  | nil => rfl
  | append_singleton entries entry ih =>
    rw [ofList_concat, List.reverse_concat, get?]
    by_cases h : entry.1 = name
    · rw [if_pos h, ← h, get?_put_self]
    · rw [if_neg h, get?_put_of_ne h, ih]

/-- Entries under the same distinct names are the same if under each name the same is found. -/
theorem eq_of_get? {more : Fields α} (hnames : fields.names = more.names)
    (hnodup : fields.names.Nodup) (h : ∀ name, fields.get? name = more.get? name) :
    fields = more := by
  induction fields generalizing more with
  | nil => exact (List.map_eq_nil_iff.1 hnames.symm).symm
  | cons entry rest ih =>
    obtain ⟨k, v⟩ := entry
    obtain ⟨⟨k', w⟩, others, rfl, hk, hothers⟩ := List.map_eq_cons_iff.1 hnames.symm
    obtain rfl : k' = k := hk
    obtain ⟨hfirst, hrest⟩ := List.nodup_cons.1 hnodup
    have hv : v = w := by simpa [get?] using h k'
    refine congrArg₂ List.cons (by rw [hv]) (ih hothers.symm hrest fun name => ?_)
    by_cases hname : k' = name
    · have hmore : k' ∉ names others := by
        rw [names, hothers]
        exact hfirst
      rw [← hname, get?_eq_none_iff.2 hfirst, get?_eq_none_iff.2 hmore]
    · simpa [get?, hname] using h name

end Fields

end DocMatch
