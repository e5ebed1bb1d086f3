import DocMatch.Proofs.Value.Walk

/-!
Branches. What a walk wraps up again is one branch of the value that it went through: below the path
all is as it was, and on the way there is nothing beside the path. The branch is found by the same
names, and by the first place wherever the path had a place in a sequence.

    path      routes.1.dev       {routes: [{dev: "br", mtu: 1}, {dev: "lo"}], interfaces: […]}
    branch    routes.0.dev       {routes: [{dev: "lo"}]}
-/

namespace DocMatch

/-- Where a step leads in a branch that was kept: in a sequence, to the only element. -/
def Step.kept : Step → Step
  | .index _ => .index 0
  | .key name => .key name

/-- The path on which a branch is found that was kept along a path. -/
def Path.kept (path : Path) : Path := path.map Step.kept

namespace Value

variable {v w : Value} {path : Path}

/-- The number of entries or elements that a value has. -/
def width : Value → Nat
  | mapping fields => fields.length
  | sequence items => items.length
  | _ => 0

/-! ### Following a path in parts -/

/-- A path is followed by following one part of it and then the other. -/
theorem navigate_append (v : Value) (path more : Path) :
    v.navigate (path ++ more) = v.navigate path >>= fun w => w.navigate more := by
  induction path generalizing v with
  | nil => rfl
  | cons step rest ih =>
    rw [List.cons_append, navigate, navigate, bind_assoc]
    exact congrArg _ (funext ih)

theorem navigate_append_of_ok (h : v.navigate path = .ok w) (more : Path) :
    v.navigate (path ++ more) = w.navigate more := by
  rw [navigate_append, h]
  rfl

/-! ### What was wrapped up is found again -/

theorem descend_wrap (step : Step) (v : Value) : (wrap step v).descend step.kept = .ok v := by
  cases step with
  | index i => rfl
  | key name => simp [wrap, Step.kept, descend, Fields.get?]

theorem width_wrap (step : Step) (v : Value) : (wrap step v).width = 1 := by
  cases step with
  | index i => rfl
  | key name => rfl

theorem wrap_kept (step : Step) (v : Value) : wrap step.kept v = wrap step v := by
  cases step with
  | index i => rfl
  | key name => rfl

theorem navigate_wrapAll (path : Path) (v : Value) :
    (wrapAll path v).navigate path.kept = .ok v := by
  induction path with
  | nil => rfl
  | cons step rest ih =>
    have hstep : (wrapAll (step :: rest) v).descend step.kept = .ok (wrapAll rest v) :=
      descend_wrap step (wrapAll rest v)
    show (wrapAll (step :: rest) v).descend step.kept >>= _ = _
    rw [hstep]
    exact ih

/-- Wrapping up along the path to a branch gives the branch. -/
theorem wrapAll_kept (path : Path) (v : Value) : wrapAll path.kept v = wrapAll path v := by
  induction path with
  | nil => rfl
  | cons step rest ih =>
    show wrap step.kept (wrapAll (Path.kept rest) v) = wrap step (wrapAll rest v)
    rw [wrap_kept, ih]

/-! ### Branches of a value -/

/-- A value that is the branch of another along a path: what follows the path is found in both, and
on the way to it the branch has nothing else. -/
structure IsBranch (source : Value) (path : Path) (branch : Value) : Prop where
  same : ∀ more, branch.navigate (path.kept ++ more) = source.navigate (path ++ more)
  narrow : ∀ above step below, path.kept = above ++ step :: below →
    ∃ u, branch.navigate above = .ok u ∧ u.width = 1

/-- What a path leads to, wrapped up again, is the branch along the path. -/
theorem isBranch_wrapAll (h : v.navigate path = .ok w) : IsBranch v path (wrapAll path w) := by
  constructor
  · intro more
    rw [navigate_append_of_ok h, navigate_append_of_ok (navigate_wrapAll path w)]
  · intro above step below hsplit
    obtain ⟨first, rest, rfl, rfl, hrest⟩ := List.map_eq_append_iff.1 hsplit
    obtain ⟨next, last, rfl, rfl, rfl⟩ := List.map_eq_cons_iff.1 hrest
    -- up to this step the branch is the wrapping of what the step leads into
    have hwrap : wrapAll (first ++ next :: last) w = wrapAll first (wrap next (wrapAll last w)) :=
      List.foldr_append
    rw [hwrap]
    exact ⟨_, navigate_wrapAll first _, width_wrap next _⟩

/-! ### Filters on a branch -/

variable {items kept : List Value} {field : String} {l : Literal} {r : Value}

/-- A mapping that has a field. -/
def HasField (field : String) : Value → Prop
  | mapping fields => field ∈ Fields.names fields
  | _ => False

theorem hasField_iff {item : Value} : HasField field item ↔ ∀ e, ¬ LacksField field item e := by
  cases item with
  | mapping fields =>
    refine ⟨fun h e => not_lacksField h, fun h => ?_⟩
    by_contra hfield
    exact h _ (.missing hfield)
  | _ => exact ⟨False.elim, fun h => h _ (.shape (by simp [shape]))⟩

/-- Every one of some elements has a field. -/
def AllHave (field : String) (items : List Value) : Prop := ∀ item ∈ items, HasField field item

theorem AllHave.filter (h : AllHave field items) (p : Value → Bool) :
    AllHave field (items.filter p) := by
  intro item hitem
  exact h item (List.mem_of_mem_filter hitem)

theorem keep_eq_ok_iff :
    keep field l items = .ok kept ↔
      AllHave field items ∧ kept = items.filter (fieldMatches field l) := by
  have hedits := keep_edits field l items
  constructor
  · intro h
    rw [h] at hedits
    cases hedits with
    | made hall hkeeps => exact ⟨fun item hitem => hasField_iff.2 (hall item hitem), hkeeps⟩
  · rintro ⟨hall, rfl⟩
    cases hr : keep field l items with
    | ok made =>
      rw [hr] at hedits
      cases hedits with
      | made _ hkeeps => rw [hkeeps]
    | error e =>
      rw [hr] at hedits
      cases hedits with
      | @fault before after item _ _ hitem =>
        exact absurd hitem (hasField_iff.1 (hall item (by simp)) e)

/-- A filter succeeds if its path leads to a sequence all of whose elements have the field, and then
keeps those that match. -/
theorem filter_eq_ok_iff :
    v.filter (path ++ [.key field]) (some l) = .ok r ↔
      ∃ items, v.navigate path = .ok (sequence items) ∧ AllHave field items ∧
        r = wrapAll path (sequence (items.filter (fieldMatches field l))) := by
  constructor
  · intro h
    cases hw : v.navigate path with
    | error e =>
      rw [filter, walk_concat_of_error (.key field) keep hw] at h
      cases h
    | ok w =>
      rw [filter, walk_concat_of_ok (.key field) keep hw] at h
      cases w with
      | sequence items =>
        rw [editElements_sequence] at h
        cases hkeep : keep field l items with
        | error e =>
          rw [hkeep] at h
          cases h
        | ok made =>
          rw [hkeep] at h
          cases h
          obtain ⟨hall, rfl⟩ := keep_eq_ok_iff.1 hkeep
          exact ⟨items, rfl, hall, rfl⟩
      | _ => cases h
  · rintro ⟨items, hw, hall, rfl⟩
    rw [filter, walk_concat_of_ok (.key field) keep hw, editElements_sequence,
      keep_eq_ok_iff.2 ⟨hall, rfl⟩]
    rfl

/-- On a branch that ends in a sequence a filter keeps the elements that match. -/
theorem filter_wrapAll (path : Path) (l : Literal) (h : AllHave field items) :
    (wrapAll path (sequence items)).filter (path.kept ++ [.key field]) (some l) =
      .ok (wrapAll path (sequence (items.filter (fieldMatches field l)))) := by
  have hpath : (wrapAll path (sequence items)).navigate path.kept = .ok (sequence items) :=
    navigate_wrapAll path _
  exact filter_eq_ok_iff.2 ⟨items, hpath, h, (wrapAll_kept path _).symm⟩

/-- A filter that has succeeded changes nothing when it is applied to its result once more, along
the path on which this is found. And two filters of the elements of one sequence can be applied one
after the other in either order, if each of them succeeds by itself: what remains are the elements
that match both, in the order in which they were. -/
theorem filter_idempotent_comm (v : Value) (path : Path) (f g : String) (a b : Literal) :
    (∀ r, v.filter (path ++ [.key f]) (some a) = .ok r →
      r.filter (path.kept ++ [.key f]) (some a) = .ok r) ∧
    ∀ r s, v.filter (path ++ [.key f]) (some a) = .ok r →
      v.filter (path ++ [.key g]) (some b) = .ok s →
      ∃ items, v.navigate path = .ok (sequence items) ∧
        let both := items.filter fun item => fieldMatches f a item && fieldMatches g b item
        r.filter (path.kept ++ [.key g]) (some b) = .ok (wrapAll path (sequence both)) ∧
        s.filter (path.kept ++ [.key f]) (some a) = .ok (wrapAll path (sequence both)) := by
  constructor
  · intro r hr
    obtain ⟨items, _, hall, rfl⟩ := filter_eq_ok_iff.1 hr
    rw [filter_wrapAll path a (hall.filter _), List.filter_filter]
    simp only [Bool.and_self]
  · intro r s hr hs
    obtain ⟨items, hitems, hf, rfl⟩ := filter_eq_ok_iff.1 hr
    obtain ⟨others, hothers, hg, rfl⟩ := filter_eq_ok_iff.1 hs
    -- both paths lead to the same sequence
    obtain rfl : items = others := by
      rw [hitems] at hothers
      cases hothers
      rfl
    refine ⟨items, hitems, ?_, ?_⟩
    · rw [filter_wrapAll path b (hg.filter _), List.filter_filter]
      simp only [Bool.and_comm]
    · rw [filter_wrapAll path a (hf.filter _), List.filter_filter]

/-- A row of a table: what was measured, and its unit. -/
def row (x : Value) (unit : String) : Value := mapping [("x", x), ("unit", string unit)]

/-- A table among other parts of a report. -/
def report (rows : List Value) : Value :=
  mapping [("title", null), ("parts", sequence [null, sequence rows])]

/-- Rows that measure one, as an integer and not, and others. -/
def measured : List Value :=
  [row (float (Binary64.ofInt 1)) "m", row (float .nan) "m", row (integer 1) "s",
    row (integer 1) "m", row (integer 2) "m"]

/-- Of the rows that measure one and of those in metres two remain, whichever filter comes first;
and the first filter changes nothing when it comes again. -/
theorem filter_idempotent_comm_measured :
    let path : Path := [.key "parts", .index 1]
    let one : Literal := .integer 1
    let metre : Literal := .string "m"
    let both := [row (float (Binary64.ofInt 1)) "m", row (integer 1) "m"]
    ∃ ones metres, (report measured).filter (path ++ [.key "x"]) (some one) = .ok ones ∧
      (report measured).filter (path ++ [.key "unit"]) (some metre) = .ok metres ∧
      ones.filter (path.kept ++ [.key "x"]) (some one) = .ok ones ∧
      ones.filter (path.kept ++ [.key "unit"]) (some metre) = .ok (wrapAll path (sequence both)) ∧
      metres.filter (path.kept ++ [.key "x"]) (some one) = .ok (wrapAll path (sequence both)) := by
  intro path one metre both
  have hpath : (report measured).navigate path = .ok (sequence measured) := rfl
  have hx : AllHave "x" measured := by
    simp [AllHave, HasField, measured, row]
  have hunit : AllHave "unit" measured := by
    simp [AllHave, HasField, measured, row]
  have hones := (filter_eq_ok_iff (l := one)).2 ⟨measured, hpath, hx, rfl⟩
  have hmetres := (filter_eq_ok_iff (l := metre)).2 ⟨measured, hpath, hunit, rfl⟩
  have hlaws := filter_idempotent_comm (report measured) path "x" "unit" one metre
  obtain ⟨items, hitems, hboth, hboth'⟩ := hlaws.2 _ _ hones hmetres
  cases hpath.symm.trans hitems
  have hleft : (measured.filter fun item =>
      fieldMatches "x" one item && fieldMatches "unit" metre item) = both := by
    have hfloat : (float (Binary64.ofInt 1)).matchesLiteral one = true := by decide +kernel
    have hx : ∀ v unit, fieldMatches "x" one (row v unit) = v.matchesLiteral one := by
      intro v unit
      rfl
    have hunit : ∀ v unit, fieldMatches "unit" metre (row v unit) = (unit == "m") := by
      intro v unit
      rfl
    have hnan : (float .nan).matchesLiteral one = false := rfl
    have hone : (integer 1).matchesLiteral one = true := rfl
    have htwo : (integer 2).matchesLiteral one = false := rfl
    simp [measured, both, List.filter, hx, hunit, hfloat, hnan, hone, htwo]
  rw [hleft] at hboth hboth'
  exact ⟨_, _, hones, hmetres, hlaws.1 _ hones, hboth, hboth'⟩

end Value

end DocMatch
