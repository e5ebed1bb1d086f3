import DocMatch.Proofs.Interchange.Meaning

/-!
Reports of a walk through a tree: what goes wrong first, or what was read if nothing does. A walk
that reports one list of errors, and then another, reports the first list followed by the second; so
the report of an array joins the reports of its items, and that of an object those of its members.

    members     ("idx", null)   ("note", {})   ("ident", "a")
    idx         some none       some none      some none
    ident       none            none           some (some "a")

After every member, what has been read of each field is what looking it up in the members so far
gives.
-/

namespace DocMatch

namespace Draft

mutual

theorem isSound_ofJson (j : Json) : (ofJson j).isSound = true := by
  cases j with
  | array js => exact areSound_ofItems js
  | object ms => exact membersSound_ofMembers ms
  | _ => rfl

theorem areSound_ofItems (js : List Json) : areSound (ofItems js) = true := by
  cases js with
  | nil => rfl
  | cons j js => rw [ofItems, areSound, isSound_ofJson j, areSound_ofItems js]; rfl

theorem membersSound_ofMembers (ms : List (String × Json)) :
    membersSound (ofMembers ms) = true := by
  cases ms with
  | nil => rfl
  | cons m ms => rw [ofMembers, membersSound, isSound_ofJson m.2, membersSound_ofMembers ms]; rfl

end

end Draft

namespace Decode

open Draft (ofJson ofItems ofMembers isSound_ofJson)
open Json

variable {α β σ : Type}

/-- A result that reports the first of some errors, or has a property if there are none. -/
def Reports (P : α → Prop) : List EncodingError → Decoding α → Prop
  | [], r => ∃ a, r = .ok a ∧ P a
  | e :: _, r => r = .error (.encoding e)

theorem Reports.ok {P : α → Prop} {a : α} (h : P a) : Reports P [] (.ok a) := ⟨a, rfl, h⟩

/-- One part after another: the errors of the first part come first. -/
theorem Reports.bind {P : α → Prop} {Q : β → Prop} {es fs : List EncodingError} {r : Decoding α}
    {next : α → Decoding β} (hr : Reports P es r) (hnext : ∀ a, P a → Reports Q fs (next a)) :
    Reports Q (es ++ fs) (r >>= next) := by
  cases es with
  | nil =>
    obtain ⟨a, rfl, ha⟩ := hr
    exact hnext a ha
  | cons e es =>
    cases hr
    rfl

/-- What is done with a part at the end reports nothing more. -/
theorem Reports.map {P : α → Prop} {Q : β → Prop} {es : List EncodingError} {r : Decoding α}
    {f : α → β} (hr : Reports P es r) (hf : ∀ a, P a → Q (f a)) :
    Reports Q es (r >>= fun a => .ok (f a)) := by
  rw [← List.append_nil es]
  exact hr.bind fun a ha => .ok (hf a ha)

theorem mapM_reports {view : Json → Option α} {part : Json → List EncodingError}
    {decode : Draft → Decoding α} {js : List Json}
    (h : ∀ k ∈ js, Reports (fun a => view k = some a) (part k) (decode (ofJson k))) :
    Reports (fun as => js.mapM view = some as) (js.flatMap part) ((ofItems js).mapM decode) := by
  induction js with
  | nil => exact .ok rfl
  | cons j js ih =>
    obtain ⟨hj, hjs⟩ := List.forall_mem_cons.1 h
    rw [ofItems, List.mapM_cons, List.mapM_cons, List.flatMap_cons]
    refine hj.bind fun a ha => (ih hjs).map fun as has => ?_
    rw [ha, has]
    rfl

/-- The items of an array are judged in their order. -/
theorem items_reports {view : Json → Option α} {part : Json → List EncodingError}
    {decode : Nat → Draft → Decoding α} {limit : Nat} {j : Json} {P : Json → Prop}
    (hj : j.IsArrayOf P) (hdepth : j.depth ≤ limit)
    (h : ∀ k, P k → ∀ limit, k.depth ≤ limit →
      Reports (fun a => view k = some a) (part k) (decode limit (ofJson k))) :
    Reports (fun as => j.list? view = some as) (j.along part) (items limit decode (ofJson j)) := by
  obtain ⟨js, rfl, hjs⟩ := hj
  obtain ⟨inner, rfl⟩ : ∃ inner, limit = inner + 1 :=
    Nat.exists_eq_succ_of_ne_zero (Nat.ne_zero_of_lt hdepth)
  refine mapM_reports fun k hk => h k (hjs k hk) inner ?_
  exact Nat.le_trans (depth_le_itemsDepth hk) (Nat.le_of_succ_le_succ hdepth)

/-- Members are judged in their order, those that are passed over as nothing. -/
theorem members_reports {field : String → Option (Draft → σ → Decoding σ)}
    {part : String → Json → List EncodingError} {Inv : σ → List (String × Json) → Prop}
    {ms : List (String × Json)} (hnames : (Fields.names ms).Nodup)
    (hread : ∀ pre s name k read, (name, k) ∈ ms → name ∉ Fields.names pre → Inv s pre →
      field name = some read →
      Reports (Inv · (pre ++ [(name, k)])) (part name k) (read (ofJson k) s))
    (hother : ∀ pre s name k, field name = none → Inv s pre →
      part name k = [] ∧ Inv s (pre ++ [(name, k)]))
    {pre rest : List (String × Json)} (hms : ms = pre ++ rest) {s : σ} (hs : Inv s pre) :
    Reports (Inv · ms) (rest.flatMap fun m => part m.1 m.2) (members field s (ofMembers rest)) := by
  -- on the members that are left; the invariant speaks of those before
  induction rest generalizing pre s with
  | nil =>
    rw [hms, List.append_nil]
    exact .ok hs
  | cons m rest ih =>
    obtain ⟨name, k⟩ := m
    have hnext : ms = (pre ++ [(name, k)]) ++ rest := by rw [hms, List.append_assoc]; rfl
    rw [ofMembers, members, List.flatMap_cons]
    cases hfield : field name with
    | none =>
      obtain ⟨hpart, hnew⟩ := hother pre s name k hfield hs
      rw [hpart, isSound_ofJson]
      exact ih hnext hnew
    | some read =>
      have hmem : (name, k) ∈ ms := hms ▸ List.mem_append_right pre List.mem_cons_self
      have hnew : name ∉ Fields.names pre := by
        rw [hms, Fields.names_append, List.nodup_append] at hnames
        exact fun hmem => hnames.2.2 _ hmem _ List.mem_cons_self rfl
      exact (hread pre s name k read hmem hnew hs hfield).bind fun t ht => ih hnext ht

/-- An object is judged member by member, under an invariant of what has been read so far. -/
theorem record_reports (Inv : σ → List (String × Json) → Prop)
    {fields : List (String × (Draft → σ → Decoding σ))} {part : String → Json → List EncodingError}
    {start : σ} {limit : Nat} {j : Json} (hj : j.IsRecord) (hdepth : j.depth ≤ limit)
    (hstart : Inv start [])
    (hread : ∀ pre s name k read, j.field? name = some k → k.depth < limit →
      name ∉ Fields.names pre → Inv s pre → (name, read) ∈ fields →
      Reports (Inv · (pre ++ [(name, k)])) (part name k) (read (ofJson k) s))
    (hother : ∀ pre s name k, name ∉ Fields.names fields → Inv s pre →
      part name k = [] ∧ Inv s (pre ++ [(name, k)])) :
    Reports (Inv · j.members) (j.within part) (record limit fields start (ofJson j)) := by
  obtain ⟨ms, rfl, hnames⟩ := hj.exists_members
  have hrecord : record limit fields start (ofJson (object ms)) =
      members (Fields.get? · fields) start (ofMembers ms) :=
    if_neg (Nat.ne_zero_of_lt hdepth)
  rw [hrecord]
  refine members_reports hnames ?_ ?_ rfl hstart
  · intro pre s name k read hmem hnew hs hread'
    have hk : (object ms).field? name = some k := (Fields.get?_eq_some_iff hnames).2 hmem
    exact hread pre s name k read hk (Nat.lt_of_lt_of_le (depth_lt_of_field? hk) hdepth) hnew hs
      (Fields.mem_of_get? hread')
  · exact fun pre s name k hnone => hother pre s name k (Fields.get?_eq_none_iff.1 hnone)

/-! ### Fields -/

/-- What has been read of a field, when some members have been read. -/
inductive Tracks (view : Json → Option α) (name : String) (ms : List (String × Json)) :
    Option (Option α) → Prop
  | missing : Fields.get? name ms = none → Tracks view name ms none
  | found {k : Json} : Fields.get? name ms = some k → k = null ∨ (view k).isSome →
      Tracks view name ms (some (view k))

section

variable {view : Json → Option α} {name other : String} {ms : List (String × Json)} {j k : Json}
  {x : Option (Option α)}

theorem Tracks.nil : Tracks view name [] none := .missing rfl

theorem Tracks.eq_none (h : Tracks view name ms x) (hnew : name ∉ Fields.names ms) : x = none := by
  cases h with
  | missing _ => rfl
  | found hk _ => exact absurd (Fields.mem_names_of_get? hk) hnew

theorem get?_concat_self (hnew : name ∉ Fields.names ms) :
    Fields.get? name (ms ++ [(name, k)]) = some k := by
  rw [Fields.get?_append, Fields.get?_eq_none_iff.2 hnew]
  exact if_pos rfl

theorem get?_concat_of_ne (hne : other ≠ name) :
    Fields.get? name (ms ++ [(other, k)]) = Fields.get? name ms := by
  rw [Fields.get?_append, Fields.get?, if_neg hne]
  exact Option.or_none

theorem Tracks.concat (hnew : name ∉ Fields.names ms) (hk : k = null ∨ (view k).isSome) :
    Tracks view name (ms ++ [(name, k)]) (some (view k)) :=
  .found (get?_concat_self hnew) hk

theorem Tracks.concat_of_ne (hne : other ≠ name) (h : Tracks view name ms x) :
    Tracks view name (ms ++ [(other, k)]) x := by
  cases h with
  | missing h => exact .missing ((get?_concat_of_ne hne).trans h)
  | found h hk => exact .found ((get?_concat_of_ne hne).trans h) hk

theorem Tracks.join (h : Tracks view name j.members x) : x.join = (j.field? name).bind view := by
  cases h with
  | missing h => rw [field?, h]; rfl
  | found h _ => rw [field?, h]; rfl

theorem Tracks.gives (h : Tracks view name j.members x) (hnull : view null = none) :
    j.gives name = x.join.isSome := by
  cases h with
  | missing h => rw [Json.gives, field?, h]; rfl
  | @found k h hk =>
    rw [Json.gives, field?, h]
    rcases hk with rfl | hk
    · rw [hnull]; rfl
    · cases k <;> simp_all [isNull]

/-- What is read of a field that is there and may not be null. -/
theorem Tracks.exists_of_field? {y : Option α} (h : Tracks view name j.members (y.map some))
    (hk : j.field? name = some k) : ∃ a, y = some a ∧ (j.field? name).bind view = some a := by
  generalize hx : y.map some = x at h
  cases h with
  | missing hnone => cases hk.symm.trans hnone
  | found hfound _ =>
    obtain ⟨a, rfl, ha⟩ := Option.map_eq_some_iff.1 hx
    refine ⟨a, rfl, ?_⟩
    rw [field?, hfound]
    exact ha.symm

/-- What is read of a field that may be missing, but not null. -/
theorem Tracks.elim {y : Option α} (h : Tracks view name j.members (y.map some)) (a : α) :
    (j.field? name).elim (some a) view = some (y.getD a) := by
  generalize hx : y.map some = x at h
  cases h with
  | missing hnone =>
    rw [field?, hnone, Option.map_eq_none_iff.1 hx]
    rfl
  | found hk _ =>
    obtain ⟨b, rfl, hb⟩ := Option.map_eq_some_iff.1 hx
    rw [field?, hk]
    exact hb.symm

theorem once_reports {P : α → Prop} {Q : σ → Prop} {get : σ → Option α} {set : σ → α → σ}
    {decode : Draft → Decoding α} {s : σ} {d : Draft} {es : List EncodingError}
    (hnone : get s = none) (h : Reports P es (decode d)) (hset : ∀ a, P a → Q (set s a)) :
    Reports Q es (once get set decode d s) := by
  rw [once, hnone]
  exact h.map hset

/-- A field that may be null. -/
theorem Tracks.optional {Q : σ → Prop} {get : σ → Option (Option α)} {set : σ → Option α → σ}
    {decode : Draft → Decoding α} {s : σ} {es : List EncodingError}
    (hs : Tracks view name ms (get s)) (hnew : name ∉ Fields.names ms) (hnull : view null = none)
    (hes : k = null → es = [])
    (h : k ≠ null → Reports (fun a => view k = some a) es (decode (ofJson k)))
    (hset : Tracks view name (ms ++ [(name, k)]) (some (view k)) → Q (set s (view k))) :
    Reports Q es (once get set (Decode.optional decode) (ofJson k) s) := by
  refine once_reports (P := fun o => o = view k ∧ (k = null ∨ (view k).isSome))
    (hs.eq_none hnew) ?_ ?_
  · by_cases hk : k = null
    · rw [hes hk, hk]
      exact .ok ⟨hnull.symm, .inl rfl⟩
    · have hmap : Decode.optional decode (ofJson k) =
          decode (ofJson k) >>= fun a => .ok (some a) := by
        cases k <;> first | rfl | exact absurd rfl hk
      rw [hmap]
      exact (h hk).map fun a ha => ⟨ha.symm, .inr (Option.isSome_of_eq_some ha)⟩
  · rintro _ ⟨rfl, hk⟩
    exact hset (.concat hnew hk)

/-- A field that may be null and in which nothing can be wrong. -/
theorem Tracks.leaf {Q : σ → Prop} {get : σ → Option (Option α)} {set : σ → Option α → σ}
    {decode : Draft → Decoding α} {s : σ} (hs : Tracks view name ms (get s))
    (hnew : name ∉ Fields.names ms) (hnull : view null = none) (hk : k = null ∨ (view k).isSome)
    (hdecode : ∀ a, view k = some a → decode (ofJson k) = .ok a)
    (hset : Tracks view name (ms ++ [(name, k)]) (some (view k)) → Q (set s (view k))) :
    Reports Q [] (once get set (Decode.optional decode) (ofJson k) s) := by
  refine hs.optional hnew hnull (fun _ => rfl) (fun hne => ?_) hset
  obtain ⟨a, ha⟩ := Option.isSome_iff_exists.1 (hk.resolve_left hne)
  exact ⟨a, hdecode a ha, ha⟩

/-- A field that may not be null. -/
theorem Tracks.required {Q : σ → Prop} {get : σ → Option α} {set : σ → α → σ}
    {decode : Draft → Decoding α} {s : σ} {es : List EncodingError}
    (hs : Tracks view name ms ((get s).map some)) (hnew : name ∉ Fields.names ms)
    (h : Reports (fun a => view k = some a) es (decode (ofJson k)))
    (hset : ∀ a, Tracks view name (ms ++ [(name, k)]) (some (some a)) → Q (set s a)) :
    Reports Q es (once get set decode (ofJson k) s) := by
  refine once_reports (Option.map_eq_none_iff.1 (hs.eq_none hnew)) h fun a ha => hset a ?_
  rw [← ha]
  exact .concat hnew (.inr (Option.isSome_of_eq_some ha))

end

end Decode

end DocMatch
