import DocMatch.Proofs.Fields
import DocMatch.Value.Walk

/-!
What walks make of a value. A walk follows all steps of its path but the last, edits what it comes
to through the last one, and puts the result back into the shapes that the steps lead into:

    routes.running.dev = "br"     {routes: {running: [r₁, r₂], config: […]}, interfaces: […]}
    follow  routes.running        [r₁, r₂]
    edit    dev                   [r₁', r₂']
    wrap    routes.running        {routes: {running: [r₁', r₂']}}

Editing asks for a field of each element, from left to right, up to the first element at fault: one
that is no mapping, and for a filter also one that lacks the field.
-/

namespace DocMatch

namespace Fields

variable {α : Type} {name : String} {value : α} {fields fields' : Fields α}

/-- The second entries are the first with a value set under a name: in place, or at the end if the
name was not there. -/
inductive IsSet (name : String) (value : α) : Fields α → Fields α → Prop
  | inPlace {before after : Fields α} {old : α} (h : name ∉ before.names) :
    IsSet name value (before ++ (name, old) :: after) (before ++ (name, value) :: after)
  | atEnd {fields : Fields α} (h : name ∉ fields.names) :
    IsSet name value fields (fields ++ [(name, value)])

/-- A further entry in front that has another name makes no difference. -/
theorem IsSet.cons {entry : String × α} (hne : entry.1 ≠ name)
    (h : IsSet name value fields fields') :
    IsSet name value (entry :: fields) (entry :: fields') := by
  cases h with
  | @inPlace before after old h =>
    rw [← List.cons_append, ← List.cons_append]
    exact .inPlace (List.not_mem_cons_of_ne_of_not_mem hne.symm h)
  | atEnd h =>
    rw [← List.cons_append]
    exact .atEnd (List.not_mem_cons_of_ne_of_not_mem hne.symm h)

theorem isSet_put (name : String) (value : α) (fields : Fields α) :
    IsSet name value fields (put name value fields) := by
  induction fields with
  | nil => exact .atEnd List.not_mem_nil
  | cons entry rest ih =>
    rcases entry with ⟨k, old⟩
    by_cases hk : k = name
    · subst hk
      rw [put, if_pos rfl, ← List.nil_append ((k, old) :: rest),
        ← List.nil_append ((k, value) :: rest)]
      exact .inPlace List.not_mem_nil
    · rw [put, if_neg hk]
      exact ih.cons hk

end Fields

namespace Value

variable {field : String} {l : Literal} {item : Value} {items : List Value} {e : WalkError}

/-- A value inside the shapes that the steps of a path lead into, the first step outermost. -/
def wrapAll (path : Path) (v : Value) : Value := path.foldr wrap v

/-- A walk goes to the end of all steps but the last, edits there, and wraps up what it made. -/
theorem walk_concat (edit : Step → Value → Except WalkError Value) (v : Value) (path : Path)
    (last : Step) :
    v.walk edit (path ++ [last]) = (v.navigate path >>= edit last).map (wrapAll path) := by
  induction path generalizing v with
  | nil =>
    show edit last v = (edit last v).map (wrapAll [])
    cases edit last v <;> rfl
  | cons step rest ih =>
    obtain ⟨next, more, hmore⟩ : ∃ next more, rest ++ [last] = next :: more :=
      List.exists_cons_of_ne_nil (List.concat_ne_nil last rest)
    rw [List.cons_append, hmore, walk, ← hmore, navigate]
    cases v.descend step with
    | error e => rfl
    | ok child =>
      show (do return wrap step (← child.walk edit (rest ++ [last]))) = _
      rw [ih]
      show _ = (child.navigate rest >>= edit last).map (wrapAll (step :: rest))
      cases child.navigate rest >>= edit last <;> rfl

/-! ### Elements at fault -/

/-- An element that is no mapping, so that it has no field and can be given none. -/
inductive IsNoMapping (field : String) : Value → WalkError → Prop
  | shape {item : Value} (h : item.shape ≠ .mapping) :
    IsNoMapping field item (.wrongShape (.key field) .mapping item.shape)

/-- An element whose field cannot be compared: it is no mapping, or it lacks the field. -/
inductive LacksField (field : String) : Value → WalkError → Prop
  | shape {item : Value} (h : item.shape ≠ .mapping) :
    LacksField field item (.wrongShape (.key field) .mapping item.shape)
  | missing {fields : Fields Value} (h : field ∉ fields.names) :
    LacksField field (mapping fields) (.notFound field)

/-- Whether an element has a field that equals a literal. -/
def fieldMatches (field : String) (l : Literal) : Value → Bool
  | mapping fields => (Fields.get? field fields).any (·.matchesLiteral l)
  | _ => false

/-- The second value is the first, a mapping, with a field set to a literal. -/
inductive HasFieldSet (field : String) (l : Literal) : Value → Value → Prop
  | mapping {fields fields' : Fields Value} (h : fields.IsSet field l.toValue fields') :
    HasFieldSet field l (mapping fields) (mapping fields')

/-- Elements are edited from left to right: the first at fault gives the error, and if none is at
fault something is made of them all. -/
inductive EditsElements (Faulty : Value → WalkError → Prop)
    (Makes : List Value → List Value → Prop) : List Value → Except WalkError (List Value) → Prop
  | fault {before after : List Value} {item : Value} {e : WalkError}
    (hbefore : ∀ x ∈ before, ∀ e, ¬ Faulty x e) (h : Faulty item e) :
    EditsElements Faulty Makes (before ++ item :: after) (.error e)
  | made {items items' : List Value} (h : ∀ x ∈ items, ∀ e, ¬ Faulty x e)
    (hmakes : Makes items items') : EditsElements Faulty Makes items (.ok items')

/-- What the last step of a path makes of a value, which is to name a field of the elements of a
sequence. -/
inductive Edits (Faulty : String → Value → WalkError → Prop)
    (Makes : String → List Value → List Value → Prop) : Step → Value → Except WalkError Value → Prop
  | terminalIndex (i : UInt64) (v : Value) :
    Edits Faulty Makes (.index i) v (.error (.terminalIndex i))
  | shape {field : String} {v : Value} (h : v.shape ≠ .sequence) :
    Edits Faulty Makes (.key field) v (.error (.wrongShape (.key field) .sequence v.shape))
  | elements {field : String} {items : List Value} {r : Except WalkError (List Value)}
    (h : EditsElements (Faulty field) (Makes field) items r) :
    Edits Faulty Makes (.key field) (sequence items) (r.map sequence)

/-- A filter leaves the elements that match, as they are and in order. -/
def Keeps (l : Literal) (field : String) (items items' : List Value) : Prop :=
  items' = items.filter (fieldMatches field l)

/-- A replacement sets the field of every element. -/
def Assigns (l : Literal) (field : String) : List Value → List Value → Prop :=
  List.Forall₂ (HasFieldSet field l)

/-! ### What both edits make of elements -/

section

variable {Faulty : Value → WalkError → Prop} {Makes : List Value → List Value → Prop}
  {rest : List Value} {r : Except WalkError (List Value)}

theorem EditsElements.cons_fault (h : Faulty item e) :
    EditsElements Faulty Makes (item :: rest) (.error e) := by
  rw [← List.nil_append (item :: rest)]
  exact .fault (fun _ hx => absurd hx List.not_mem_nil) h

/-- An element that is not at fault leaves the fault to those after it. -/
theorem EditsElements.cons (hitem : ∀ e, ¬ Faulty item e) {f : List Value → List Value}
    (hf : ∀ made, Makes rest made → Makes (item :: rest) (f made))
    (h : EditsElements Faulty Makes rest r) :
    EditsElements Faulty Makes (item :: rest) (r.map f) := by
  cases h with
  | fault hbefore h =>
    rw [← List.cons_append]
    exact .fault (List.forall_mem_cons.2 ⟨hitem, hbefore⟩) h
  | made h hmakes => exact .made (List.forall_mem_cons.2 ⟨hitem, h⟩) (hf _ hmakes)

end

/-- An element is a mapping, or it has no entries. -/
theorem entries_cases (field : String) (item : Value) :
    (∃ fields, item = mapping fields) ∨ (item.shape ≠ .mapping ∧
      entries field item = .error (.wrongShape (.key field) .mapping item.shape)) := by
  cases item with
  | mapping fields => exact Or.inl ⟨fields, rfl⟩
  | _ => exact Or.inr ⟨by simp [shape], rfl⟩

theorem not_isNoMapping (field : String) (fields : Fields Value) :
    ¬ IsNoMapping field (mapping fields) e := by
  rintro ⟨h⟩
  exact h rfl

theorem not_lacksField {fields : Fields Value} (hfield : field ∈ fields.names) :
    ¬ LacksField field (mapping fields) e := by
  intro h
  cases h with
  | shape h => exact h rfl
  | missing h => exact h hfield

theorem keep_edits (field : String) (l : Literal) (items : List Value) :
    EditsElements (LacksField field) (Keeps l field) items (keep field l items) := by
  induction items with
  | nil => exact .made (fun _ hx => absurd hx List.not_mem_nil) rfl
  | cons item rest ih =>
    rcases entries_cases field item with ⟨fields, rfl⟩ | ⟨hshape, hentries⟩
    · cases hfound : Fields.get? field fields with
      | none =>
        have hkeep : keep field l (mapping fields :: rest) = .error (.notFound field) := by
          simp only [keep, entries, bind, Except.bind, hfound]
        rw [hkeep]
        exact .cons_fault (.missing (Fields.get?_eq_none_iff.1 hfound))
      | some found =>
        have hmatch : fieldMatches field l (mapping fields) = found.matchesLiteral l := by
          rw [fieldMatches, hfound, Option.any_some]
        have hkeep : keep field l (mapping fields :: rest) = (keep field l rest).map fun kept =>
            if fieldMatches field l (mapping fields) then mapping fields :: kept else kept := by
          simp only [keep, entries, bind, Except.bind, hfound, hmatch]
          cases keep field l rest <;> rfl
        rw [hkeep]
        refine .cons (fun e => not_lacksField (Fields.mem_names_of_get? hfound)) ?_ ih
        rintro made rfl
        rw [Keeps, List.filter_cons]
    · have hkeep : keep field l (item :: rest) =
          .error (.wrongShape (.key field) .mapping item.shape) := by
        rw [keep, hentries]
        rfl
      rw [hkeep]
      exact .cons_fault (.shape hshape)

theorem assign_edits (field : String) (l : Literal) (items : List Value) :
    EditsElements (IsNoMapping field) (Assigns l field) items (assign field l items) := by
  induction items with
  | nil => exact .made (fun _ hx => absurd hx List.not_mem_nil) .nil
  | cons item rest ih =>
    rcases entries_cases field item with ⟨fields, rfl⟩ | ⟨hshape, hentries⟩
    · have hassign : assign field l (mapping fields :: rest) =
          (assign field l rest).map (mapping (Fields.put field l.toValue fields) :: ·) := by
        rw [assign, entries]
        cases assign field l rest <;> rfl
      rw [hassign]
      refine .cons (fun e => not_isNoMapping field fields) (fun made hmade => ?_) ih
      exact .cons (.mapping (Fields.isSet_put field l.toValue fields)) hmade
    · have hassign : assign field l (item :: rest) =
          .error (.wrongShape (.key field) .mapping item.shape) := by
        rw [assign, hentries]
        rfl
      rw [hassign]
      exact .cons_fault (.shape hshape)

theorem editElements_sequence
    (edit : String → Literal → List Value → Except WalkError (List Value)) (field : String)
    (l : Literal) (items : List Value) :
    editElements edit (some l) (.key field) (sequence items) =
      (edit field l items).map sequence := by
  show (do return sequence (← edit field l items)) = _
  cases edit field l items <;> rfl

/-- The last step edits the elements of a sequence, and fails if it is a position or if there is no
sequence. -/
theorem editElements_edits {Faulty : String → Value → WalkError → Prop}
    {Makes : String → List Value → List Value → Prop}
    {edit : String → Literal → List Value → Except WalkError (List Value)}
    (h : ∀ field items, EditsElements (Faulty field) (Makes field) items (edit field l items))
    (last : Step) (v : Value) : Edits Faulty Makes last v (editElements edit (some l) last v) := by
  cases last with
  | index i => exact .terminalIndex i v
  | key field =>
    cases v with
    | sequence items =>
      rw [editElements_sequence]
      exact .elements (h field items)
    | _ => exact .shape (by simp [shape])

/-! ### The whole walk -/

section

variable {v w : Value} {path : Path} (last : Step)
  (edit : String → Literal → List Value → Except WalkError (List Value))

theorem walk_concat_of_error (h : v.navigate path = .error e) (l? : Option Literal) :
    v.walk (editElements edit l?) (path ++ [last]) = .error e := by
  rw [walk_concat, h]
  rfl

theorem walk_concat_of_ok (h : v.navigate path = .ok w) (l? : Option Literal) :
    v.walk (editElements edit l?) (path ++ [last]) =
      (editElements edit l? last w).map (wrapAll path) := by
  rw [walk_concat, h]
  rfl

end

/-- Both walks follow their path to the last step, edit there, and wrap up what they made. They fail
with the error of the path if it cannot be followed; without a literal they change nothing; and with
one the last step edits the elements of a sequence, where a filter keeps those that match, and a
replacement sets the field of each. -/
theorem walks_edit_and_wrap (v : Value) (path : Path) (last : Step) :
    (∀ e, v.navigate path = .error e → ∀ l?,
      v.filter (path ++ [last]) l? = .error e ∧ v.replace (path ++ [last]) l? = .error e) ∧
    ∀ w, v.navigate path = .ok w →
      (v.filter (path ++ [last]) none = .ok (wrapAll path w) ∧
        v.replace (path ++ [last]) none = .ok (wrapAll path w)) ∧
      ∀ l,
        (∃ r, Edits LacksField (Keeps l) last w r ∧
          v.filter (path ++ [last]) (some l) = r.map (wrapAll path)) ∧
        ∃ r, Edits IsNoMapping (Assigns l) last w r ∧
          v.replace (path ++ [last]) (some l) = r.map (wrapAll path) := by
  refine ⟨fun e he l? => ?_, fun w hw => ⟨?_, fun l => ⟨?_, ?_⟩⟩⟩
  · exact ⟨walk_concat_of_error last keep he l?, walk_concat_of_error last assign he l?⟩
  · exact ⟨walk_concat_of_ok last keep hw none, walk_concat_of_ok last assign hw none⟩
  · exact ⟨_, editElements_edits (fun field items => keep_edits field l items) last w,
      walk_concat_of_ok last keep hw (some l)⟩
  · exact ⟨_, editElements_edits (fun field items => assign_edits field l items) last w,
      walk_concat_of_ok last assign hw (some l)⟩

/-- Rows among other things; the last of them lacks the field `x`. -/
def rows : Value :=
  mapping [("a", sequence [null, mapping [("rows", sequence
    [mapping [("x", string "old"), ("k", integer 1)],
      mapping [("k", integer 2), ("x", string "new")],
      mapping [("k", integer 3)]]), ("b", null)]]), ("c", null)]

/-- The filter fails at the row without the field, the replacement gives it one, and neither gets
past a missing entry. -/
theorem walks_edit_and_wrap_rows :
    let path : Path := [.key "a", .index 1, .key "rows"]
    let new : Literal := .string "new"
    (∃ w r, rows.navigate path = .ok w ∧ Edits LacksField (Keeps new) (.key "x") w r ∧
      r.map (wrapAll path) = .error (.notFound "x")) ∧
    (∃ w r, rows.navigate path = .ok w ∧ Edits IsNoMapping (Assigns new) (.key "x") w r ∧
      r.map (wrapAll path) = .ok (mapping [("a", sequence [mapping [("rows", sequence
        [mapping [("x", string "new"), ("k", integer 1)],
          mapping [("k", integer 2), ("x", string "new")],
          mapping [("k", integer 3), ("x", string "new")]])]])])) ∧
    rows.filter [.key "d", .index 0] none = .error (.notFound "d") := by
  intro path new
  have hpath := walks_edit_and_wrap rows path (.key "x")
  obtain ⟨⟨r, hr, hfilter⟩, r', hr', hreplace⟩ := (hpath.2 _ rfl).2 new
  have hmissing : rows.navigate [.key "d"] = .error (.notFound "d") := rfl
  refine ⟨⟨_, r, rfl, hr, ?_⟩, ⟨_, r', rfl, hr', ?_⟩, ?_⟩
  · rw [← hfilter]
    rfl
  · rw [← hreplace]
    rfl
  · exact ((walks_edit_and_wrap rows [.key "d"] (.index 0)).1 _ hmissing none).1

end Value

end DocMatch
