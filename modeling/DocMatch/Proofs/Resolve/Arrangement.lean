import DocMatch.Proofs.Resolve.Reach

/-!
Resolving all matchers. The values are found in the order in which they are needed, and in part by
earlier calls; they are given in the order in which their matchers were declared.

    declared     a, b, c            a needs c, c needs b
    asked for    c                  remembered   b, c
    then all                        remembered   b, c, a        given   a, b, c

The first declared matcher that fails by itself ends it, and nothing is given.
-/

namespace DocMatch

namespace Fields

variable {α : Type} {fields other : Fields α} {name : String}

theorem names_perm (hperm : fields.Perm other) : fields.names.Perm other.names :=
  hperm.map Prod.fst

/-- With distinct names the order of the entries does not matter. -/
theorem get?_of_perm (hperm : fields.Perm other) (h : fields.names.Nodup) (name : String) :
    fields.get? name = other.get? name := by
  have hother : other.names.Nodup := (names_perm hperm).nodup_iff.1 h
  refine Option.ext fun v => ?_
  rw [get?_eq_some_iff h, get?_eq_some_iff hother, hperm.mem_iff]

end Fields

namespace Matchers

variable {matchers : Matchers} {x y z : String}

/-! ### The order of declaration -/

theorem place?_getElem (h : matchers.names.Nodup) (i : Nat) (hi : i < matchers.names.length) :
    matchers.place? matchers.names[i] = some i := by
  refine List.idxOf?_eq_some_iff.2 ⟨hi, rfl, fun j hj heq => ?_⟩
  have hji : j = i := (h.getElem_inj_iff).1 heq
  omega

theorem noLater_total (x y : String) : (matchers.noLater x y || matchers.noLater y x) = true := by
  unfold noLater
  cases matchers.place? x with
  | none => simp
  | some i =>
    cases matchers.place? y with
    | none => simp
    | some j =>
      simp only [Bool.or_eq_true, decide_eq_true_eq]
      omega

theorem noLater_trans (hxy : matchers.noLater x y = true) (hyz : matchers.noLater y z = true) :
    matchers.noLater x z = true := by
  unfold noLater at hxy hyz ⊢
  cases hx : matchers.place? x with
  | none => rfl
  | some i =>
    cases hy : matchers.place? y with
    | none => simp [hx, hy] at hxy
    | some j =>
      cases hz : matchers.place? z with
      | none => simp [hy, hz] at hyz
      | some k =>
        simp only [hx, hy, hz, decide_eq_true_eq] at hxy hyz ⊢
        omega

/-- Two declared names, neither of them later than the other, are one. -/
theorem eq_of_noLater (hx : x ∈ matchers.names) (hy : y ∈ matchers.names)
    (hxy : matchers.noLater x y = true) (hyx : matchers.noLater y x = true) : x = y := by
  obtain ⟨i, hi⟩ := Option.isSome_iff_exists.1 (List.isSome_idxOf?.2 hx)
  obtain ⟨j, hj⟩ := Option.isSome_iff_exists.1 (List.isSome_idxOf?.2 hy)
  obtain ⟨_, hxi, _⟩ := List.idxOf?_eq_some_iff.1 hi
  obtain ⟨_, hyj, _⟩ := List.idxOf?_eq_some_iff.1 hj
  have hij : i = j := by
    simp only [noLater, place?, hi, hj, decide_eq_true_eq] at hxy hyx
    omega
  subst hij
  exact hxi.symm.trans hyj

/-- Distinct names stand in the order of their declaration. -/
theorem pairwise_names (h : matchers.names.Nodup) :
    matchers.names.Pairwise fun x y => matchers.noLater x y = true := by
  refine List.pairwise_iff_getElem.2 fun i j hi hj hij => ?_
  simp only [noLater, place?_getElem h, decide_eq_true_eq]
  omega

/-- Values for all declared names, in whatever order they were found, are arranged in the order of
declaration. -/
theorem names_arrange (h : matchers.names.Nodup) {values : Fields Value}
    (hperm : values.names.Perm matchers.names) :
    (matchers.arrange values).names = matchers.names := by
  have hsame : (matchers.arrange values).names.Perm matchers.names :=
    ((List.mergeSort_perm values _).map Prod.fst).trans hperm
  have hsorted : (matchers.arrange values).names.Pairwise fun x y => matchers.noLater x y = true := by
    refine List.pairwise_map.2 (List.pairwise_mergeSort ?_ ?_ values)
    · exact fun _ _ _ => noLater_trans
    · exact fun _ _ => noLater_total _ _
  refine List.Perm.eq_of_pairwise (fun x y hx hy => ?_) hsorted (pairwise_names h) hsame
  exact eq_of_noLater (hsame.mem_iff.1 hx) hy

/-- Arranging values does not change them. -/
theorem get?_arrange {values : Fields Value} (h : values.names.Nodup) (name : String) :
    (matchers.arrange values).get? name = values.get? name :=
  (Fields.get?_of_perm (List.mergeSort_perm values _).symm h name).symm

/-! ### One name after the other -/

variable (matchers) (document : Value)

/-- Resolves names in order, each in a session of its own, up to the first that fails. -/
def freshAll (names : List String) : Except EvalError Unit :=
  names.forM fun name => discard (matchers.fresh document name)

/-- The first of some names that fails by itself fails with an error. -/
def FirstFailure (names : List String) (e : EvalError) : Prop :=
  ∃ before name after, names = before ++ name :: after ∧
    (∀ x ∈ before, ∃ v, matchers.fresh document x = .ok v) ∧ matchers.fresh document name = .error e

variable {matchers} {document} {name : String} {names : List String}

theorem freshAll_cons_ok {v : Value} (h : matchers.fresh document name = .ok v) :
    matchers.freshAll document (name :: names) = matchers.freshAll document names := by
  rw [freshAll, List.forM_eq_forM, List.forM_cons, h]
  rfl

theorem freshAll_cons_error {e : EvalError} (h : matchers.fresh document name = .error e) :
    matchers.freshAll document (name :: names) = .error e := by
  rw [freshAll, List.forM_eq_forM, List.forM_cons, h]
  rfl

theorem freshAll_eq_ok_iff :
    matchers.freshAll document names = .ok () ↔
      ∀ name ∈ names, ∃ v, matchers.fresh document name = .ok v := by
  induction names with
  | nil => exact ⟨fun _ => nofun, fun _ => rfl⟩
  | cons name names ih =>
    rw [List.forall_mem_cons]
    cases h : matchers.fresh document name with
    | ok v => simp [freshAll_cons_ok h, ih]
    | error e => simp [freshAll_cons_error h]

theorem firstFailure_cons {e : EvalError} :
    matchers.FirstFailure document (name :: names) e ↔
      matchers.fresh document name = .error e ∨
        (∃ v, matchers.fresh document name = .ok v) ∧ matchers.FirstFailure document names e := by
  constructor
  · rintro ⟨before, x, after, hsplit, hbefore, hx⟩
    cases before with
    | nil =>
      obtain ⟨rfl, rfl⟩ := List.cons.inj hsplit
      exact Or.inl hx
    | cons y before =>
      obtain ⟨rfl, rfl⟩ := List.cons.inj hsplit
      obtain ⟨hname, hrest⟩ := List.forall_mem_cons.1 hbefore
      exact Or.inr ⟨hname, before, x, after, rfl, hrest, hx⟩
  · rintro (hx | ⟨hname, before, x, after, rfl, hrest, hx⟩)
    · exact ⟨[], name, names, rfl, nofun, hx⟩
    · exact ⟨name :: before, x, after, rfl, List.forall_mem_cons.2 ⟨hname, hrest⟩, hx⟩

theorem freshAll_eq_error_iff {e : EvalError} :
    matchers.freshAll document names = .error e ↔ matchers.FirstFailure document names e := by
  induction names with
  | nil =>
    constructor
    · intro h
      cases h
    · rintro ⟨before, name, after, hsplit, _⟩
      simp at hsplit
  | cons name names ih =>
    rw [firstFailure_cons]
    cases h : matchers.fresh document name with
    | ok v => simp [freshAll_cons_ok h, ih]
    | error e' => simp [freshAll_cons_error h]

theorem discard_bind_apply {α β : Type} (x : Resolving α) (y : Resolving β) (session : Session) :
    (discard x >>= fun _ => y) session =
      match (x session).1 with
      | .ok _ => y (x session).2
      | .error e => (.error e, (x session).2) := by
  have hdiscard : (discard x >>= fun _ => y) = x >>= fun _ => y :=
    bind_map_left (fun _ => ()) x fun _ => y
  rw [hdiscard]
  exact Resolving.bind_apply x (fun _ => y) session

/-- Resolving names in order comes to what resolving each in a session of its own comes to; if none
fails, all are remembered. -/
theorem forM_resolve (names : List String) {session : Session} (hs : Sound matchers document [] session) :
    let outcome := (names.forM fun name => discard (matchers.resolve document name) : Resolving Unit)
      session
    Sound.Outcome matchers document [] session outcome (matchers.freshAll document names) ∧
      (outcome.1 = .ok () → ∀ name ∈ names, name ∈ outcome.2.resolved.names) := by
  induction names generalizing session with
  | nil => exact ⟨⟨rfl, hs, List.prefix_rfl⟩, fun _ => nofun⟩
  | cons name names ih =>
    have hfound : Sound.Found matchers document [] name session
        (matchers.resolve document name session) := resolveIn_finds matchers document [] name session hs
    have hfresh : (matchers.resolve document name session).1 = matchers.fresh document name :=
      hfound.result.trans (matchers.fresh_eq_valueIn document name).symm
    simp only [List.forM_eq_forM, List.forM_cons, discard_bind_apply]
    cases h : matchers.fresh document name with
    | ok v =>
      rw [freshAll_cons_ok h, hfresh.trans h]
      obtain ⟨hrest, hnames⟩ := ih hfound.sound
      refine ⟨⟨hrest.result, hrest.sound, hfound.grows.trans hrest.grows⟩, fun hok => ?_⟩
      refine List.forall_mem_cons.2 ⟨?_, hnames hok⟩
      have hname := hfound.remembers v (hfresh.trans h)
      exact Fields.mem_names_of_get? (Fields.get?_of_prefix hrest.grows hname)
    | error e =>
      rw [freshAll_cons_error h, hfresh.trans h]
      exact ⟨⟨rfl, hfound.sound, hfound.grows⟩, nofun⟩

/-- Values for all declared names, in the order of declaration, each as in a session of its own. -/
structure Complete (matchers : Matchers) (document : Value) (values : Fields Value) : Prop where
  ordered : values.names = matchers.names
  fresh : ∀ name ∈ matchers.names, ∃ v,
    values.get? name = some v ∧ matchers.fresh document name = .ok v

/-- What a session remembers is complete once it is arranged, if all names are remembered. -/
theorem complete_arrange (h : matchers.names.Nodup) {session : Session}
    (hs : Sound matchers document [] session)
    (hall : ∀ name ∈ matchers.names, name ∈ session.resolved.names) :
    matchers.Complete document (matchers.arrange session.resolved) := by
  have hnodup : session.resolved.names.Nodup := hs.grounded.nodup_names
  constructor
  · refine names_arrange h ((List.perm_ext_iff_of_nodup hnodup h).2 fun name => ?_)
    exact ⟨hs.grounded.declared, hall name⟩
  · intro name hname
    obtain ⟨v, hv⟩ := Option.isSome_iff_exists.1 (Fields.get?_isSome.2 (hall name hname))
    refine ⟨v, (get?_arrange hnodup name).trans hv, ?_⟩
    rw [fresh_eq_valueIn]
    exact hs.grounded.valueIn_eq hs.apart hv

/-- Resolving all gives complete values, unless a name fails by itself. -/
theorem exists_resolveAll_eq (h : matchers.names.Nodup) {session : Session}
    (hs : Sound matchers document [] session) :
    ∃ values, (matchers.freshAll document matchers.names = .ok () →
        matchers.Complete document values) ∧
      (matchers.resolveAll document session).1 =
        (matchers.freshAll document matchers.names).map fun _ => values := by
  obtain ⟨houtcome, hnames⟩ := forM_resolve matchers.names hs
  refine ⟨_, fun hok => complete_arrange h houtcome.sound (hnames (houtcome.result.trans hok)), ?_⟩
  unfold resolveAll
  rw [Resolving.bind_apply]
  cases hall : matchers.freshAll document matchers.names with
  | ok _ =>
    rw [houtcome.result.trans hall]
    rfl
  | error e =>
    rw [houtcome.result.trans hall]
    rfl

/-- The order of declaration makes no difference to a single name. -/
theorem fresh_of_perm {other : Matchers} (hperm : matchers.Perm other) (h : matchers.names.Nodup)
    (name : String) : matchers.fresh document name = other.fresh document name := by
  rw [fresh_eq_valueIn, fresh_eq_valueIn]
  exact valueIn_eq_of_agree document [] fun x _ => Fields.get?_of_perm hperm h x

/-- Nor does it make a difference to complete values, looked up by name. -/
theorem Complete.get?_of_perm {other : Matchers} (hperm : matchers.Perm other)
    (h : matchers.names.Nodup) {values otherValues : Fields Value}
    (hv : matchers.Complete document values) (hw : other.Complete document otherValues)
    (name : String) : values.get? name = otherValues.get? name := by
  have hnames : name ∈ matchers.names ↔ name ∈ other.names := (Fields.names_perm hperm).mem_iff
  by_cases hname : name ∈ matchers.names
  · obtain ⟨v, hget, hfresh⟩ := hv.fresh name hname
    obtain ⟨w, hget', hfresh'⟩ := hw.fresh name (hnames.1 hname)
    rw [fresh_of_perm hperm h, hfresh'] at hfresh
    cases hfresh
    rw [hget, hget']
  · have hv' : values.get? name = none := by
      rwa [Fields.get?_eq_none_iff, hv.ordered]
    have hw' : otherValues.get? name = none := by
      rwa [Fields.get?_eq_none_iff, hw.ordered, ← hnames]
    rw [hv', hw']

/-- Nor to whether any of them fails. -/
theorem freshAll_ok_of_perm {other : Matchers} (hperm : matchers.Perm other)
    (h : matchers.names.Nodup) :
    matchers.freshAll document matchers.names = .ok () ↔
      other.freshAll document other.names = .ok () := by
  rw [freshAll_eq_ok_iff, freshAll_eq_ok_iff]
  refine forall_congr' fun name => ?_
  rw [fresh_of_perm hperm h, (Fields.names_perm hperm).mem_iff]

/-- The same declarations in another order all succeed, with the same values, or fail too. -/
theorem resolveAll_of_perm {other : Matchers} (hperm : matchers.Perm other)
    (h : matchers.names.Nodup) {session otherSession : Session}
    (hs : Sound matchers document [] session) (hs' : Sound other document [] otherSession) :
    (∃ values otherValues, (matchers.resolveAll document session).1 = .ok values ∧
      (other.resolveAll document otherSession).1 = .ok otherValues ∧
      ∀ name, values.get? name = otherValues.get? name) ∨
    ∃ e otherError, (matchers.resolveAll document session).1 = .error e ∧
      (other.resolveAll document otherSession).1 = .error otherError := by
  have h' : other.names.Nodup := (Fields.names_perm hperm).nodup_iff.1 h
  obtain ⟨values, hcomplete, hgiven⟩ := exists_resolveAll_eq h hs
  obtain ⟨otherValues, hcomplete', hgiven'⟩ := exists_resolveAll_eq h' hs'
  have hboth : matchers.freshAll document matchers.names = .ok () ↔ _ := freshAll_ok_of_perm hperm h
  rw [hgiven, hgiven']
  cases hall : matchers.freshAll document matchers.names with
  | ok _ =>
    have hall' := hboth.1 hall
    rw [hall']
    exact Or.inl ⟨values, otherValues, rfl, rfl,
      Complete.get?_of_perm hperm h (hcomplete hall) (hcomplete' hall')⟩
  | error e =>
    cases hall' : other.freshAll document other.names with
    | ok _ => cases hall.symm.trans (hboth.2 hall')
    | error e' => exact Or.inr ⟨e, e', rfl, rfl⟩

/-- Resolving all is all or nothing, whatever the session has been asked for before. It succeeds
exactly when every declared name has a value by itself, and then gives these values in the order of
declaration; else it fails with the error of the first declared name that fails by itself. So the
same declarations in another order also all succeed, with the same value for every name, or fail. -/
theorem resolveAll_all_or_nothing (document : Value) (h : matchers.names.Nodup)
    (calls : List Call) :
    let given := (matchers.resolveAll document (matchers.sessionAfter document calls)).1
    ((∃ values, given = .ok values) ↔
      ∀ name ∈ matchers.names, ∃ v, matchers.fresh document name = .ok v) ∧
    (∀ values, given = .ok values → matchers.Complete document values) ∧
    (∀ e, given = .error e ↔ matchers.FirstFailure document matchers.names e) ∧
    ∀ (other : Matchers) (otherCalls : List Call), matchers.Perm other →
      let otherGiven := (other.resolveAll document (other.sessionAfter document otherCalls)).1
      (∃ values otherValues, given = .ok values ∧ otherGiven = .ok otherValues ∧
        ∀ name, values.get? name = otherValues.get? name) ∨
      ∃ e otherError, given = .error e ∧ otherGiven = .error otherError := by
  intro given
  have hs : Sound matchers document [] _ := matchers.sound_sessionAfter document calls
  obtain ⟨values, hcomplete, hgiven⟩ := exists_resolveAll_eq h hs
  change given = _ at hgiven
  refine ⟨?_, fun found hfound => ?_, fun e => ?_, fun other otherCalls hperm => ?_⟩
  · rw [hgiven, ← freshAll_eq_ok_iff]
    cases matchers.freshAll document matchers.names with
    | ok _ => exact ⟨fun _ => rfl, fun _ => ⟨values, rfl⟩⟩
    | error e => simp [Except.map]
  · rw [hgiven] at hfound
    cases hall : matchers.freshAll document matchers.names with
    | ok _ =>
      rw [hall] at hfound
      cases hfound
      exact hcomplete hall
    | error e =>
      rw [hall] at hfound
      cases hfound
  · rw [hgiven, ← freshAll_eq_error_iff]
    cases matchers.freshAll document matchers.names with
    | ok _ => simp [Except.map]
    | error e' => simp [Except.map]
  · exact resolveAll_of_perm hperm h hs (other.sound_sessionAfter document otherCalls)

/-- A matcher that refers to the last, and that one to the second. -/
def staggered : Matchers :=
  [("a", ⟨⟨.filter, .path [.key referenceWord, .key "c"], none⟩, []⟩),
    ("b", ⟨⟨.filter, .path [.key "y"], none⟩, []⟩),
    ("c", ⟨⟨.filter, .path [.key referenceWord, .key "b"], none⟩, []⟩)]

/-- After a call that leaves the last two remembered, all three are given as they were declared. -/
theorem resolveAll_all_or_nothing_staggered :
    (staggered.sessionAfter twoFields [.resolve "c"]).resolved.names = ["b", "c"] ∧
      ∃ values, (staggered.resolveAll twoFields
          (staggered.sessionAfter twoFields [.resolve "c"])).1 = .ok values ∧
        values.names = ["a", "b", "c"] ∧ values.get? "a" = some (.string "z") := by
  have hnodup : staggered.names.Nodup := by decide
  have ha : staggered.fresh twoFields "a" = .ok (.string "z") := by cbv
  have hb : staggered.fresh twoFields "b" = .ok (.string "z") := by cbv
  have hc : staggered.fresh twoFields "c" = .ok (.string "z") := by cbv
  have hall : ∀ name ∈ staggered.names, ∃ v, staggered.fresh twoFields name = .ok v := by
    intro name hname
    simp only [staggered, Fields.names_cons, Fields.names_nil, List.mem_cons, List.not_mem_nil,
      or_false] at hname
    rcases hname with rfl | rfl | rfl
    · exact ⟨_, ha⟩
    · exact ⟨_, hb⟩
    · exact ⟨_, hc⟩
  have hgive := resolveAll_all_or_nothing twoFields hnodup [.resolve "c"]
  obtain ⟨values, hvalues⟩ := hgive.1.2 hall
  have hcomplete := hgive.2.1 values hvalues
  obtain ⟨v, hget, hv⟩ := hcomplete.fresh "a" (by decide)
  rw [ha] at hv
  cases hv
  exact ⟨by cbv, values, hvalues, hcomplete.ordered, hget⟩

end Matchers

end DocMatch
