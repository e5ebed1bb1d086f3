import DocMatch.Proofs.Yaml.Reading

/-!
One token of a scanner that is outside of all blocks, as it is in a JSON text. It passes the blanks
in front of the token, and on the way it may forget a key that is too far away; no key is ever
required there. So what a token does to the scanner is known, up to the keys that may be forgotten:

    " , "a": 1"      at the comma      a key may follow
                     after the name    the name is a key, if its colon comes soon
-/

namespace DocMatch.Yaml.Scanner

open Json

variable {s s' : Scanner} {gap more : List Char} {bound : Nat}

/-! ### Scanners outside of blocks -/

/-- A scanner outside of all blocks with no key that is required. -/
structure IsFree (s : Scanner) : Prop where
  indents : s.indents = []
  pending : ∀ k ∈ s.pending, k.required = false
  outer : ∀ p ∈ s.outerPending, ∀ k ∈ p, k.required = false

namespace IsFree

variable (h : IsFree s)

include h

theorem indent : s.indent = -1 := by rw [Scanner.indent, h.indents]; rfl

/-- No block ends. -/
theorem unroll (column : Int) : s.unroll column = s := by
  obtain ⟨_, _, _, _, _, _, _, _⟩ := s
  obtain rfl : _ = [] := h.indents
  rw [Scanner.unroll]
  split <;> rfl

theorem forgetKey : s.forgetKey = .ok { s with pending := none } := by
  have hany : s.pending.any PendingKey.required = false :=
    (Option.any_eq_false _ _).2 fun k hk => by simp [h.pending k hk]
  rw [Scanner.forgetKey, hany]
  rfl

end IsFree

theorem dropStale_eq (r : Reader) {p : Option PendingKey} (h : ∀ k ∈ p, k.required = false) :
    dropStale r p = .ok (p.filter (!isStale r ·)) := by
  cases p with
  | none => rfl
  | some k =>
    have hk := h k rfl
    cases hstale : isStale r k <;> simp [dropStale, Option.filter, hk, hstale]

/-- A scanner behind a gap: the keys that are too far away are forgotten. -/
def arrived (s : Scanner) (gap : List Char) (r : Reader) : Scanner :=
  { s with
    reader := r
    keyAllowed := s.keyAllowed || (!s.inFlow && gap.any isBreak)
    pending := s.pending.filter (!isStale r ·)
    outerPending := s.outerPending.map fun p => p.filter (!isStale r ·) }

theorem mapM_dropStale (r : Reader) {ps : List (Option PendingKey)}
    (h : ∀ p ∈ ps, ∀ k ∈ p, k.required = false) :
    ps.mapM (dropStale r) = .ok (ps.map fun p => p.filter (!isStale r ·)) := by
  induction ps with
  | nil => rfl
  | cons p ps ih =>
    obtain ⟨hp, hps⟩ := List.forall_mem_cons.1 h
    rw [List.mapM_cons, dropStale_eq r hp, ih hps]
    rfl

/-! ### Gaps -/

/-- Whether a token can start with a character: it is no blank and starts no comment. -/
def startsToken (c : Char) : Bool := !(isSpaceOrBreak c || c == '#' || c == '\uFEFF')

/-- Whether a gap is passed. Where a key may start, outside of brackets, there are no tabs. -/
def MayPass (s : Scanner) (gap : List Char) : Prop :=
  s.inFlow = true ∨ '\t' ∉ gap ∨ (s.keyAllowed = false ∧ '\t' ∉ gap.dropWhile (!isBreak ·))

theorem of_startsToken {c : Char} (h : startsToken c = true) :
    isSpace c = false ∧ isBreak c = false ∧ c ≠ '#' ∧ c ≠ '\uFEFF' := by
  simpa [startsToken, isSpaceOrBreak, and_assoc] using h

/-- What happens on one line. -/
theorem skipGaps_succ {r : Reader} (hmark : s.reader.sees (· == '\uFEFF') = false)
    (hline : s.reader.skipWhile (fun c => c == ' ' ||
      ((s.inFlow || !s.keyAllowed) && c == '\t')) = r) (hcomment : r.sees (· == '#') = false) :
    s.skipGaps (bound + 1) =
      if r.sees isBreak then
        skipGaps bound { s with reader := r.skipBreak, keyAllowed := s.keyAllowed || !s.inFlow }
      else { s with reader := r } := by
  simp [skipGaps, hmark, hline, hcomment]

/-- Where the first line of a gap ends, a line break or a token is. -/
theorem stops_line (hmore : ∀ c ∈ more.head?, startsToken c = true) {c : Char}
    (hc : c ∈ (gap.dropWhile (!isBreak ·) ++ more).head?) :
    isSpace c = false ∧ c ≠ '#' ∧ c ≠ '\uFEFF' := by
  cases hlater : gap.dropWhile (!isBreak ·) with
  | nil =>
    rw [hlater] at hc
    obtain ⟨hspace, -, hcomment, hmark⟩ := of_startsToken (hmore c hc)
    exact ⟨hspace, hcomment, hmark⟩
  | cons b later =>
    rw [hlater] at hc
    obtain rfl : b = c := Option.some.inj hc
    have hb : isBreak b = true := by
      simpa using ends_dropWhile (!isBreak ·) gap b (hlater ▸ rfl)
    simp only [isBreak, Bool.or_eq_true, beq_iff_eq] at hb
    rcases hb with (((rfl | rfl) | rfl) | rfl) | rfl <;> decide

/-- On the first line of a gap nothing stands that stops it. -/
theorem skipWhile_line (hgap : ∀ c ∈ gap, Draft.isSpace c = true)
    (hmore : ∀ c ∈ more.head?, startsToken c = true) (hrest : s.reader.rest = gap ++ more)
    (htabs : s.MayPass gap) :
    s.reader.skipWhile (fun c => c == ' ' || ((s.inFlow || !s.keyAllowed) && c == '\t')) =
      s.reader.skip (gap.takeWhile (!isBreak ·)).length := by
  have hline : ∀ c ∈ gap.takeWhile (!isBreak ·),
      (c == ' ' || ((s.inFlow || !s.keyAllowed) && c == '\t')) = true := by
    intro c hc
    have hbreak : isBreak c = false := by simpa using List.mem_takeWhile_imp hc
    have hmem : c ∈ gap := (List.takeWhile_prefix _).subset hc
    have hspace := isSpaceOrBreak_of_isSpace (hgap c hmem)
    rw [isSpaceOrBreak, hbreak, Bool.or_false, isSpace, Bool.or_eq_true] at hspace
    rcases hspace with hspace | htab
    · simp [hspace]
    · rcases htabs with hflow | htabs | ⟨hkey, -⟩
      · simp [hflow, htab]
      · exact absurd (beq_iff_eq.1 htab ▸ hmem) htabs
      · simp [hkey, htab]
  have hends : Ends (fun c => c == ' ' || ((s.inFlow || !s.keyAllowed) && c == '\t'))
      (gap.dropWhile (!isBreak ·) ++ more) := by
    intro c hc
    have hspace : isSpace c = false := (stops_line hmore hc).1
    rw [isSpace, Bool.or_eq_false_iff] at hspace
    simp [hspace]
  have hsplit : s.reader.rest =
      gap.takeWhile (!isBreak ·) ++ (gap.dropWhile (!isBreak ·) ++ more) := by
    rw [hrest, ← List.append_assoc, List.takeWhile_append_dropWhile]
  rw [Reader.skipWhile, hsplit, takeWhile_of_ends hline hends]

/-- Neither a gap nor a token begins with a byte order mark. -/
theorem sees_mark (hgap : ∀ c ∈ gap, Draft.isSpace c = true)
    (hmore : ∀ c ∈ more.head?, startsToken c = true) (hrest : s.reader.rest = gap ++ more) :
    s.reader.sees (· == '\uFEFF') = false := by
  rw [Reader.sees, hrest, Option.any_eq_false]
  intro c hc
  cases gap with
  | nil => simp [(of_startsToken (hmore c hc)).2.2.2]
  | cons b gap =>
    obtain rfl : b = c := Option.some.inj hc
    have hb := hgap b List.mem_cons_self
    simp only [Draft.isSpace, Bool.or_eq_true, beq_iff_eq] at hb
    rcases hb with ((rfl | rfl) | rfl) | rfl <;> rfl

/-- The first line of a gap is passed, and what comes next depends on whether it ends there. -/
theorem exists_skipLine (hgap : ∀ c ∈ gap, Draft.isSpace c = true)
    (hmore : ∀ c ∈ more.head?, startsToken c = true) (hrest : s.reader.rest = gap ++ more)
    (htabs : s.MayPass gap) (bound : Nat) :
    ∃ r, r.rest = gap.dropWhile (!isBreak ·) ++ more ∧
      r = s.reader.skip (gap.takeWhile (!isBreak ·)).length ∧
      s.skipGaps (bound + 1) =
        if r.sees isBreak then
          skipGaps bound { s with reader := r.skipBreak, keyAllowed := s.keyAllowed || !s.inFlow }
        else { s with reader := r } := by
  have hline := skipWhile_line hgap hmore hrest htabs
  have hskip : (s.reader.skip (gap.takeWhile (!isBreak ·)).length).rest =
      gap.dropWhile (!isBreak ·) ++ more := by
    refine Reader.skip_rest_append ?_
    rw [hrest, ← List.append_assoc, List.takeWhile_append_dropWhile]
  have hcomment : (s.reader.skip (gap.takeWhile (!isBreak ·)).length).sees (· == '#') =
      false := by
    rw [Reader.sees, hskip, Option.any_eq_false]
    exact fun c hc => by simp [(stops_line hmore hc).2.1]
  exact ⟨_, hskip, rfl, skipGaps_succ (sees_mark hgap hmore hrest) hline hcomment⟩

/-- What is left of a gap after its first line is passed as well. -/
theorem MayPass.left {s' : Scanner} {b : Char} {later left : List Char} (h : s.MayPass gap)
    (hlater : gap.dropWhile (!isBreak ·) = b :: later) (hleft : left <:+ later)
    (hflow : s'.inFlow = s.inFlow) : s'.MayPass left := by
  have hsuffix : b :: later <:+ gap := hlater ▸ List.dropWhile_suffix _
  have hmem : ∀ c ∈ left, c ∈ b :: later := fun c hc => List.mem_cons_of_mem b (hleft.subset hc)
  rcases h with hinside | htabs | ⟨-, htabs⟩
  · exact .inl (hflow ▸ hinside)
  · exact .inr (.inl fun htab => htabs (hsuffix.subset (hmem _ htab)))
  · exact .inr (.inl fun htab => htabs (hlater ▸ hmem _ htab))

/-- A gap is passed line by line. -/
theorem exists_skipGaps (hgap : ∀ c ∈ gap, Draft.isSpace c = true)
    (hmore : ∀ c ∈ more.head?, startsToken c = true) (hbound : gap.length < bound)
    (hrest : s.reader.rest = gap ++ more) (htabs : s.MayPass gap) :
    ∃ r, s.skipGaps bound = { s with
        reader := r
        keyAllowed := s.keyAllowed || (!s.inFlow && gap.any isBreak) } ∧
      r.rest = more ∧ (gap.any isBreak = false → r = s.reader.skip gap.length) := by
  induction bound generalizing gap s with
  | zero => omega
  | succ bound ih =>
    obtain ⟨r, hr, hline, hskips⟩ := exists_skipLine hgap hmore hrest htabs bound
    cases hlater : gap.dropWhile (!isBreak ·) with
    | nil =>
      have hwhole : gap.takeWhile (!isBreak ·) = gap := by
        have := List.takeWhile_append_dropWhile (p := (!isBreak ·)) (l := gap)
        rwa [hlater, List.append_nil] at this
      have hbreaks : gap.any isBreak = false := by
        rw [List.any_eq_false, ← hwhole]
        exact fun c hc => by simpa using List.mem_takeWhile_imp hc
      rw [hlater, List.nil_append] at hr
      have hsees : r.sees isBreak = false := by
        rw [Reader.sees, hr, Option.any_eq_false]
        exact fun c hc => by simp [(of_startsToken (hmore c hc)).2.1]
      refine ⟨r, ?_, hr, ?_⟩
      · simp [hskips, hsees, hbreaks]
      · rw [hline, hwhole]
        exact fun _ => rfl
    | cons b later =>
      have hb : isBreak b = true := by
        simpa using ends_dropWhile (!isBreak ·) gap b (hlater ▸ rfl)
      have hsuffix : b :: later <:+ gap := hlater ▸ List.dropWhile_suffix _
      have hbreaks : gap.any isBreak = true :=
        List.any_eq_true.2 ⟨b, hsuffix.subset List.mem_cons_self, hb⟩
      rw [hlater] at hr
      have hsees : r.sees isBreak = true := by
        rw [Reader.sees, hr]
        exact hb
      have hends : Ends isSpaceOrBreak more := fun c hc => by
        obtain ⟨hspace, hbreak, -⟩ := of_startsToken (hmore c hc)
        rw [isSpaceOrBreak, hspace, hbreak]
        rfl
      obtain ⟨left, hleft, hrest'⟩ := Reader.exists_skipBreak hb hends hr
      have hleftGap : left <:+ gap := hleft.trans ((List.suffix_cons b later).trans hsuffix)
      have hlength : left.length < bound := by
        have := hleft.length_le
        have := hsuffix.length_le
        simp only [List.length_cons] at this
        omega
      obtain ⟨r', hskips', hr', -⟩ := ih (fun c hc => hgap c (hleftGap.subset hc)) hlength
        (s := { s with reader := r.skipBreak, keyAllowed := s.keyAllowed || !s.inFlow })
        hrest' (htabs.left hlater hleft rfl)
      have hkey : (s.keyAllowed || !s.inFlow || (!s.inFlow && left.any isBreak)) =
          (s.keyAllowed || (!s.inFlow && true)) := by
        cases s.keyAllowed <;> cases s.inFlow <;> rfl
      refine ⟨r', ?_, hr', by simp [hbreaks]⟩
      rw [hskips, if_pos hsees, hskips', hbreaks, ← hkey]
      rfl

/-! ### Arriving at a token -/

theorem IsFree.arrived (h : s.IsFree) (gap : List Char) (r : Reader) : (s.arrived gap r).IsFree := by
  constructor
  · exact h.indents
  · exact fun k hk => h.pending k (Option.mem_filter_iff.1 hk).1
  · intro p hp k hk
    obtain ⟨q, hq, rfl⟩ := List.mem_map.1 hp
    exact h.outer q hq k (Option.mem_filter_iff.1 hk).1

theorem dropAllStale_eq (h : s.IsFree) :
    s.dropAllStale = .ok (s.arrived [] s.reader) := by
  rw [dropAllStale, mapM_dropStale _ h.outer, dropStale_eq _ h.pending, arrived, List.any_nil,
    Bool.and_false, Bool.or_false]
  rfl

/-- A gap in front of a token, or at the end, is passed. -/
theorem exists_arrived (h : s.IsFree) (hgap : ∀ c ∈ gap, Draft.isSpace c = true)
    (hmore : ∀ c ∈ more.head?, startsToken c = true) (hrest : s.reader.rest = gap ++ more)
    (htabs : s.MayPass gap) :
    ∃ r, r.rest = more ∧ (gap.any isBreak = false → r = s.reader.skip gap.length) ∧
      (s.skipGaps (s.reader.rest.length + 1)).dropAllStale = .ok (s.arrived gap r) := by
  have hlength : gap.length < s.reader.rest.length + 1 := by
    rw [hrest, List.length_append]
    omega
  obtain ⟨r, hskips, hr, hnear⟩ := exists_skipGaps hgap hmore hlength hrest htabs
  have hfree : IsFree { s with
      reader := r
      keyAllowed := s.keyAllowed || (!s.inFlow && gap.any isBreak) } :=
    ⟨h.indents, h.pending, h.outer⟩
  refine ⟨r, hr, hnear, ?_⟩
  rw [hskips, dropAllStale_eq hfree, arrived, arrived, List.any_nil, Bool.and_false, Bool.or_false]

/-- Reading the next token. -/
theorem readAll_token (h : s.IsFree) {c : Char} {r : Reader} (hr : r.rest = c :: more)
    (harrived : (s.skipGaps (s.reader.rest.length + 1)).dropAllStale = .ok (s.arrived gap r))
    (htoken : (s.arrived gap r).readToken c more.head? = .ok s') (bound : Nat) :
    readAll (bound + 1) s = readAll bound s' := by
  have hrest : (s.arrived gap r).reader.rest = c :: more := hr
  rw [readAll, harrived]
  simp only [bind, Except.bind, (h.arrived gap r).unroll, hrest, htoken]

/-- At the end of the text nothing is read any more. -/
theorem readAll_end (h : s.IsFree) (hgap : ∀ c ∈ gap, Draft.isSpace c = true)
    (hrest : s.reader.rest = gap) (htabs : s.MayPass gap) (bound : Nat) :
    ∃ s', readAll (bound + 1) s = .ok s' ∧ s'.tokens = s.tokens := by
  have hmore : ∀ c ∈ [].head?, startsToken c = true := nofun
  rw [← List.append_nil gap] at hrest
  obtain ⟨r, hr, -, harrived⟩ := exists_arrived h hgap hmore hrest htabs
  have hend : (s.arrived gap r).reader.rest = [] := hr
  refine ⟨{ s.arrived gap r with pending := none }, ?_, rfl⟩
  rw [readAll, harrived]
  simp only [bind, Except.bind, (h.arrived gap r).unroll, hend, (h.arrived gap r).forgetKey]

/-! ### Steps -/

/-- A scanner comes to another one by some steps, each of which takes a character. -/
def LeadsTo (s s' : Scanner) : Prop :=
  ∃ n, n + s'.reader.rest.length ≤ s.reader.rest.length ∧
    ∀ bound, readAll (n + bound) s = readAll bound s'

theorem LeadsTo.trans {s₁ s₂ s₃ : Scanner} (h : LeadsTo s₁ s₂) (h' : LeadsTo s₂ s₃) :
    LeadsTo s₁ s₃ := by
  obtain ⟨m, hm, hread⟩ := h
  obtain ⟨n, hn, hread'⟩ := h'
  refine ⟨m + n, by omega, fun bound => ?_⟩
  rw [Nat.add_assoc, hread, hread']

/-- A scanner at a place: outside of all blocks and inside of `depth` brackets, with some tokens read
and some characters left. -/
structure Stands (s : Scanner) (depth : Nat) (tokens : List Token) (rest : List Char) : Prop
    extends IsFree s where
  depth : s.outerPending.length = depth
  tokens : s.tokens = tokens
  rest : s.reader.rest = rest

variable {depth : Nat} {tokens : List Token} {rest : List Char}

theorem Stands.inFlow (h : s.Stands depth tokens rest) : s.inFlow = decide (0 < depth) := by
  rw [Scanner.inFlow, ← h.depth]
  cases s.outerPending <;> rfl

theorem Stands.arrived {r : Reader} (h : s.Stands depth tokens (gap ++ rest))
    (hr : r.rest = rest) : (s.arrived gap r).Stands depth tokens rest where
  toIsFree := h.toIsFree.arrived gap r
  depth := by rw [Scanner.arrived, List.length_map, h.depth]
  tokens := h.tokens
  rest := hr

/-- A token is read behind its gap. -/
theorem Stands.exists_step {gap : Blanks} {c : Char}
    (h : s.Stands depth tokens (gap.chars ++ c :: rest)) (hc : startsToken c = true)
    (htabs : s.MayPass gap.chars) :
    ∃ r, r.rest = c :: rest ∧ (gap.chars.any isBreak = false → r = s.reader.skip gap.chars.length) ∧
      ∀ s', (s.arrived gap.chars r).readToken c rest.head? = .ok s' →
        s'.reader.rest.length ≤ rest.length → LeadsTo s s' := by
  have hmore : ∀ d ∈ (c :: rest).head?, startsToken d = true := by
    rintro _ ⟨⟩
    exact hc
  obtain ⟨r, hr, hnear, harrived⟩ := exists_arrived h.toIsFree gap.isSpace hmore h.rest htabs
  refine ⟨r, hr, hnear, fun s' htoken hlength => ⟨1, ?_, fun bound => ?_⟩⟩
  · rw [h.rest, List.length_append, List.length_cons]
    omega
  · rw [Nat.add_comm]
    exact readAll_token h.toIsFree hr harrived htoken bound

/-! ### The marks -/

/-- The key that the next token would be. -/
def nextKey (s : Scanner) : PendingKey :=
  ⟨s.count, s.reader.index, s.reader.line, s.reader.column, false⟩

/-- A scanner that remembers the next token, if a key is allowed there. -/
def remembered (s : Scanner) : Scanner :=
  { s with pending := if s.keyAllowed then some s.nextKey else s.pending }

theorem IsFree.rememberKey (h : s.IsFree) : s.rememberKey = .ok s.remembered := by
  rw [Scanner.rememberKey, remembered]
  by_cases hkey : s.keyAllowed = true
  · have hrequired : (!s.inFlow && s.indent == (s.reader.column : Int)) = false := by
      have : s.indent ≠ s.reader.column := by rw [h.indent]; omega
      simp [this]
    rw [if_pos hkey, if_pos hkey, h.forgetKey]
    change Except.ok { s with pending := some ⟨s.count, s.reader.index, s.reader.line,
      s.reader.column, !s.inFlow && s.indent == (s.reader.column : Int)⟩ } = _
    rw [hrequired]
    rfl
  · rw [if_neg hkey, if_neg hkey]

theorem Stands.remembered (h : s.Stands depth tokens rest) :
    s.remembered.Stands depth tokens rest where
  indents := h.indents
  pending := by
    intro k hk
    rw [Scanner.remembered] at hk
    dsimp only at hk
    split at hk
    · cases hk
      rfl
    · exact h.pending k hk
  outer := h.outer
  depth := h.depth
  tokens := h.tokens
  rest := h.rest

theorem Stands.skip_one {c : Char} (h : s.Stands depth tokens (c :: rest)) :
    (s.reader.skip 1).rest = rest := by
  rw [Reader.skip, h.rest]
  rfl

/-- After an opening bracket a key may follow. -/
theorem Stands.exists_openFlow {c : Char} (h : s.Stands depth tokens (c :: rest)) (t : Token) :
    ∃ s', s.openFlow t = .ok s' ∧ s'.Stands (depth + 1) (t :: tokens) rest ∧
      s'.keyAllowed = true := by
  have houter : ∀ p ∈ s.remembered.pending :: s.outerPending, ∀ k ∈ p, k.required = false :=
    List.forall_mem_cons.2 ⟨h.remembered.pending, h.outer⟩
  refine ⟨_, by rw [openFlow, h.rememberKey]; rfl, ?_, rfl⟩
  exact ⟨⟨h.indents, nofun, houter⟩, congrArg (· + 1) h.depth, congrArg (t :: ·) h.tokens,
    h.skip_one⟩

/-- After a closing bracket no key may follow. -/
theorem Stands.exists_closeFlow {c : Char} (h : s.Stands (depth + 1) tokens (c :: rest))
    (t : Token) :
    ∃ s', s.closeFlow t = .ok s' ∧ s'.Stands depth (t :: tokens) rest ∧ s'.keyAllowed = false := by
  cases houter : s.outerPending with
  | nil =>
    have := h.depth
    rw [houter] at this
    cases this
  | cons k outer =>
    have hdepth : outer.length = depth := by
      have := h.depth
      rw [houter] at this
      exact Nat.succ.inj this
    have hpending := h.outer
    rw [houter] at hpending
    obtain ⟨hk, hrest⟩ := List.forall_mem_cons.1 hpending
    refine ⟨(({ s with pending := k, outerPending := outer } : Scanner).allowKey false).mark t 1,
      ?_, ?_, rfl⟩
    · rw [closeFlow, h.forgetKey]
      simp only [bind, Except.bind, houter]
      rfl
    · exact ⟨⟨h.indents, hk, hrest⟩, hdepth, congrArg (t :: ·) h.tokens, h.skip_one⟩

/-- After a comma a key may follow. -/
theorem Stands.exists_flowEntry {c : Char} (h : s.Stands depth tokens (c :: rest)) :
    ∃ s', s.flowEntry = .ok s' ∧ s'.Stands depth (.flowEntry :: tokens) rest ∧
      s'.keyAllowed = true := by
  refine ⟨_, by rw [flowEntry, h.forgetKey]; rfl, ?_, rfl⟩
  exact ⟨⟨h.indents, nofun, h.outer⟩, h.depth, congrArg (_ :: ·) h.tokens, h.skip_one⟩

/-- The colon behind a name that is remembered. -/
theorem Stands.exists_value {c : Char} {k : PendingKey} {t : Token}
    (h : s.Stands (depth + 1) (t :: tokens) (c :: rest)) (hk : s.pending = some k)
    (hnumber : k.number + 1 = s.count) :
    ∃ s', s.value = .ok s' ∧ s'.Stands (depth + 1) (.value :: t :: .key :: tokens) rest := by
  have hflow : (s.insert k.number .key).inFlow = true := by
    show s.inFlow = true
    simp [h.inFlow]
  have hroll : (s.insert k.number .key).roll k.column (some k.number) .blockMappingStart =
      s.insert k.number .key := by
    rw [roll, hflow]
    rfl
  have hinsert : (s.insert k.number .key).tokens = t :: .key :: tokens := by
    rw [insert, ← hnumber, Nat.add_sub_cancel_left, h.tokens]
    rfl
  refine ⟨({ s.insert k.number .key with pending := none, keyAllowed := false } : Scanner).mark
    .value 1, by rw [value, hk]; simp only [hroll], ?_⟩
  exact ⟨⟨h.indents, nofun, h.outer⟩, h.depth, congrArg (_ :: ·) hinsert, h.skip_one⟩

/-! ### The scalars -/

/-- A string literal, from its quote on. Without line breaks its end is on the same line. -/
theorem Stands.exists_quotedScalar {body : Body}
    (h : s.Stands depth tokens ('"' :: (body.chars ++ '"' :: rest))) (hbody : body.IsPortable) :
    ∃ s', s.quotedScalar false = .ok s' ∧
      s'.Stands depth (.scalar body.text .marked :: tokens) rest ∧ s'.keyAllowed = false ∧
      (body.chars.any isBreak = false → s'.reader = s.reader.skip (body.chars.length + 2)) ∧
      s'.count = s.count + 1 ∧ (s.keyAllowed = true → s'.pending = some s.nextKey) := by
  have hmarker : (s.reader.skip 1).atDocumentMarker = false :=
    Reader.atDocumentMarker_of_column (Nat.succ_pos _)
  have hlength : body.length < (s.reader.skip 1).rest.length + 1 := by
    have := Body.length_le body
    rw [h.skip_one, List.length_append]
    omega
  obtain ⟨r, hread, hr, hend⟩ := exists_readQuoted hbody hmarker hlength h.skip_one
  refine ⟨({ s.remembered with reader := r, keyAllowed := false } : Scanner).add
    (.scalar body.text .marked), ?_, ?_, rfl, fun hbreaks => ?_, rfl, fun hkey => if_pos hkey⟩
  · have hread' : readQuoted false ((s.remembered.reader.skip 1).rest.length + 1)
        (s.remembered.reader.skip 1) = .ok (body.text, r) := hread
    rw [quotedScalar, h.rememberKey]
    simp only [bind, Except.bind, hread']
    rfl
  · exact ⟨⟨h.indents, h.remembered.pending, h.outer⟩, h.depth, congrArg (_ :: ·) h.tokens, hr⟩
  · have hwidth : 1 + (body.chars.length + 1) = body.chars.length + 2 := by omega
    rw [← hwidth, ← Reader.skip_skip]
    exact hend hbreaks

/-- A word, with the blanks behind it. -/
theorem Stands.exists_plainScalar {w : Word} {after : Blanks}
    (h : s.Stands depth tokens (w.chars ++ (after.chars ++ rest)))
    (hrest : EndsPlain (decide (0 < depth)) rest) :
    ∃ s', s.plainScalar = .ok s' ∧ s'.Stands depth (.scalar w.chars .plain :: tokens) rest := by
  rw [← h.inFlow] at hrest
  obtain ⟨broken, r, hread, hr⟩ := exists_readPlain w after h.rest hrest s.reader.rest.length
  have hindent : (s.remembered.indent + 1).toNat = 0 := by
    rw [h.remembered.indent]
    rfl
  refine ⟨({ s.remembered with reader := r, keyAllowed := broken } : Scanner).add
    (.scalar w.chars .plain), ?_, ?_⟩
  · rw [plainScalar, h.rememberKey]
    have hread' : readPlain s.remembered.inFlow 0 (s.remembered.reader.rest.length + 1) {}
        s.remembered.reader = .ok (w.chars, broken, r) := hread
    simp only [bind, Except.bind, hindent, hread']
    rfl
  · exact ⟨⟨h.indents, h.remembered.pending, h.outer⟩, h.depth, congrArg (_ :: ·) h.tokens, hr⟩

/-! ### Reading the token that is there -/

/-- The characters that are or begin a token of their own. -/
def ownMarks : List Char :=
  ['%', '[', '{', ']', '}', ',', '?', ':', '*', '&', '!', '|', '>', '\'', '"', '#', '@', '\x60']

/-- What is no mark starts a plain scalar. -/
theorem readToken_plain {c : Char} {next : Option Char} (hc : c ∉ ownMarks)
    (hspace : isSpaceOrBreak c = false) (hminus : c = '-' → next.all isSpaceOrBreak = false)
    (hstart : s.reader.atMarker '-' = false) (hend : s.reader.atMarker '.' = false) :
    s.readToken c next = s.plainScalar := by
  have hplain : startsPlain s.inFlow c next = true := by
    by_cases hc' : c = '-'
    · subst hc'
      cases next with
      | none => cases hminus rfl
      | some d =>
        have hd : isSpace d = false := by
          have := hminus rfl
          simp only [Option.all_some, isSpaceOrBreak, Bool.or_eq_false_iff] at this
          exact this.1
        simp [startsPlain, hd]
    · simp only [ownMarks, List.mem_cons, List.not_mem_nil, or_false, not_or] at hc
      simp [startsPlain, hspace, hc', hc]
  have hentry : (c == '-' && next.all isSpaceOrBreak) = false := by
    by_cases hc' : c = '-'
    · simp [hminus hc']
    · simp [hc']
  simp only [ownMarks, List.mem_cons, List.not_mem_nil, or_false, not_or] at hc
  simp [readToken, hstart, hend, hc, hentry, hplain]

theorem readToken_word (w : Word) {c : Char} {cs : List Char} (hchars : w.chars = c :: cs)
    (hrest : s.reader.rest = w.chars ++ rest) :
    s.readToken c (cs ++ rest).head? = s.plainScalar := by
  have hstart := atMarker_word w (.inl rfl) hrest
  have hend := atMarker_word w (.inr rfl) hrest
  have hc := List.all_eq_true.1 (rfl : wordChars.all
    (fun c => !isSpaceOrBreak c && decide (c ∉ ownMarks)) = true) c
      (w.mem_wordChars (hchars ▸ List.mem_cons_self))
  simp only [Bool.and_eq_true, Bool.not_eq_true', decide_eq_true_eq] at hc
  refine readToken_plain hc.2 hc.1 ?_ hstart hend
  rintro rfl
  obtain ⟨c', cs', hchars', hcases⟩ := exists_start w
  obtain ⟨rfl, rfl⟩ := List.cons.inj (hchars.symm.trans hchars')
  rcases hcases with hdigit | h | h | h | ⟨-, d, ds, rfl, hd⟩
  · cases hdigit
  · cases h
  · cases h
  · cases h
  · have hword := List.all_eq_true.1 (rfl : wordChars.all (!isSpaceOrBreak ·) = true) d
      (mem_wordChars_of_isDigit hd)
    simpa using hword

/-- The tokens of the brackets that open. -/
def opening? : Char → Option Token
  | '[' => some .flowSequenceStart
  | '{' => some .flowMappingStart
  | _ => none

/-- The tokens of the brackets that close. -/
def closing? : Char → Option Token
  | ']' => some .flowSequenceEnd
  | '}' => some .flowMappingEnd
  | _ => none

section

variable {c : Char} {t : Token} {next : Option Char} (hrest : s.reader.rest = c :: rest)

include hrest

theorem readToken_opening (hc : opening? c = some t) : s.readToken c next = s.openFlow t := by
  unfold opening? at hc
  split at hc
  · cases hc
    simp [readToken, atMarker_of_head hrest]
  · cases hc
    simp [readToken, atMarker_of_head hrest]
  · cases hc

theorem readToken_closing (hc : closing? c = some t) : s.readToken c next = s.closeFlow t := by
  unfold closing? at hc
  split at hc
  · cases hc
    simp [readToken, atMarker_of_head hrest]
  · cases hc
    simp [readToken, atMarker_of_head hrest]
  · cases hc

theorem readToken_comma (hc : c = ',') : s.readToken c next = s.flowEntry := by
  subst hc
  simp [readToken, atMarker_of_head hrest]

theorem readToken_colon (hc : c = ':') (hflow : s.inFlow = true) :
    s.readToken c next = s.value := by
  subst hc
  simp [readToken, atMarker_of_head hrest, hflow]

theorem readToken_quote (hc : c = '"') : s.readToken c next = s.quotedScalar false := by
  subst hc
  simp [readToken, atMarker_of_head hrest]

end

/-! ### From token to token -/

theorem startsToken_of_opening {c : Char} {t : Token} (h : opening? c = some t) :
    startsToken c = true := by
  unfold opening? at h
  split at h <;> first | rfl | cases h

theorem startsToken_of_closing {c : Char} {t : Token} (h : closing? c = some t) :
    startsToken c = true := by
  unfold closing? at h
  split at h <;> first | rfl | cases h

theorem Stands.mayPass (h : s.Stands (depth + 1) tokens rest) (gap : List Char) : s.MayPass gap :=
  .inl (by simp [h.inFlow])

variable {gap : Blanks} {c : Char} {t : Token}

/-- Up to and past a bracket that opens. -/
theorem Stands.exists_open (hc : opening? c = some t)
    (h : s.Stands depth tokens (gap.chars ++ c :: rest)) (htabs : s.MayPass gap.chars) :
    ∃ s', s.LeadsTo s' ∧ s'.Stands (depth + 1) (t :: tokens) rest ∧ s'.keyAllowed = true := by
  obtain ⟨r, hr, -, hstep⟩ := h.exists_step (startsToken_of_opening hc) htabs
  obtain ⟨s', hopen, hs', hkey⟩ := (h.arrived hr).exists_openFlow t
  refine ⟨s', hstep s' ?_ (by rw [hs'.rest]), hs', hkey⟩
  rw [readToken_opening hr hc, hopen]

/-- Up to and past a bracket that closes. -/
theorem Stands.exists_close (hc : closing? c = some t)
    (h : s.Stands (depth + 1) tokens (gap.chars ++ c :: rest)) :
    ∃ s', s.LeadsTo s' ∧ s'.Stands depth (t :: tokens) rest ∧ s'.keyAllowed = false := by
  obtain ⟨r, hr, -, hstep⟩ := h.exists_step (startsToken_of_closing hc) (h.mayPass _)
  obtain ⟨s', hclose, hs', hkey⟩ := (h.arrived hr).exists_closeFlow t
  refine ⟨s', hstep s' ?_ (by rw [hs'.rest]), hs', hkey⟩
  rw [readToken_closing hr hc, hclose]

/-- Up to and past a comma. -/
theorem Stands.exists_comma (h : s.Stands (depth + 1) tokens (gap.chars ++ ',' :: rest)) :
    ∃ s', s.LeadsTo s' ∧ s'.Stands (depth + 1) (.flowEntry :: tokens) rest ∧
      s'.keyAllowed = true := by
  obtain ⟨r, hr, -, hstep⟩ := h.exists_step rfl (h.mayPass _)
  obtain ⟨s', hentry, hs', hkey⟩ := (h.arrived hr).exists_flowEntry
  refine ⟨s', hstep s' ?_ (by rw [hs'.rest]), hs', hkey⟩
  rw [readToken_comma hr rfl, hentry]

/-- Up to a word and past the blanks behind it. -/
theorem Stands.exists_word {w : Word} {after : Blanks}
    (h : s.Stands depth tokens (gap.chars ++ (w.chars ++ (after.chars ++ rest))))
    (hrest : EndsPlain (decide (0 < depth)) rest) (htabs : s.MayPass gap.chars) :
    ∃ s', s.LeadsTo s' ∧ s'.Stands depth (.scalar w.chars .plain :: tokens) rest := by
  obtain ⟨c, cs, hchars⟩ := List.exists_cons_of_ne_nil w.chars_ne_nil
  have hc := List.all_eq_true.1 (rfl : wordChars.all startsToken = true) c
    (w.mem_wordChars (hchars ▸ List.mem_cons_self))
  have hsplit : w.chars ++ (after.chars ++ rest) = c :: (cs ++ (after.chars ++ rest)) := by
    rw [hchars, List.cons_append]
  rw [hsplit] at h
  obtain ⟨r, hr, -, hstep⟩ := h.exists_step hc htabs
  have harrived := h.arrived hr
  rw [← hsplit] at harrived
  obtain ⟨s', hplain, hs'⟩ := harrived.exists_plainScalar hrest
  refine ⟨s', hstep s' ?_ ?_, hs'⟩
  · rw [readToken_word w hchars harrived.rest, hplain]
  · rw [hs'.rest, List.length_append, List.length_append]
    omega

/-- Up to and past a string literal. It is remembered where a key is allowed. -/
theorem Stands.exists_literal {body : Body}
    (h : s.Stands depth tokens (gap.chars ++ '"' :: (body.chars ++ '"' :: rest)))
    (hbody : body.IsPortable) (htabs : s.MayPass gap.chars) :
    ∃ s' k, s.LeadsTo s' ∧ s'.Stands depth (.scalar body.text .marked :: tokens) rest ∧
      s'.keyAllowed = false ∧ (s.keyAllowed = true → s'.pending = some k) ∧
      k.number + 1 = s'.count ∧ (body.chars.any isBreak = false →
        k.line = s'.reader.line ∧ s'.reader.index = k.index + (body.chars.length + 2)) := by
  obtain ⟨r, hr, -, hstep⟩ := h.exists_step rfl htabs
  obtain ⟨s', hquoted, hs', hkey, hreader, hcount, hpending⟩ :=
    (h.arrived hr).exists_quotedScalar hbody
  refine ⟨s', (s.arrived gap.chars r).nextKey, hstep s' ?_ ?_, hs', hkey, ?_, hcount.symm,
    fun hbreaks => ?_⟩
  · rw [readToken_quote hr rfl, hquoted]
  · rw [hs'.rest, List.length_append, List.length_cons]
    omega
  · intro hallowed
    refine hpending ?_
    rw [Scanner.arrived, hallowed]
    rfl
  · rw [hreader hbreaks]
    exact ⟨rfl, rfl⟩

/-- Up to and past a name and its colon, which is near. -/
theorem Stands.exists_name {name : Body} {colon : Blanks}
    (h : s.Stands (depth + 1) tokens
      (gap.chars ++ '"' :: (name.chars ++ '"' :: (colon.chars ++ ':' :: rest))))
    (hname : name.IsPortable) (hkey : s.keyAllowed = true)
    (hnear : staysNear (gap.chars, .literal name.chars) (colon.chars, .mark ':') = true) :
    ∃ s', s.LeadsTo s' ∧
      s'.Stands (depth + 1) (.value :: .scalar name.text .marked :: .key :: tokens) rest := by
  obtain ⟨s₁, k, hto, h₁, -, hpending, hnumber, hplace⟩ := h.exists_literal hname (h.mayPass _)
  obtain ⟨r, hr, hskip, hstep⟩ := h₁.exists_step rfl (h₁.mayPass _)
  simp only [staysNear, Bool.and_eq_true, decide_eq_true_eq] at hnear
  obtain ⟨hbreaks, hwidth⟩ := hnear
  have hnone : (name.chars ++ colon.chars).any isBreak = false := by
    rw [List.any_eq_false]
    exact fun c hc => by simpa using List.all_eq_true.1 hbreaks c hc
  rw [List.any_append, Bool.or_eq_false_iff] at hnone
  obtain ⟨hline, hindex⟩ := hplace hnone.1
  have hfresh : isStale r k = false := by
    rw [hskip hnone.2, isStale]
    simp [Reader.skip, hline, hindex]
    omega
  have hremembered : (s₁.arrived colon.chars r).pending = some k := by
    rw [Scanner.arrived, hpending hkey]
    simp [Option.filter, hfresh]
  have harrived := h₁.arrived hr
  obtain ⟨s', hvalue, hs'⟩ := harrived.exists_value hremembered hnumber
  refine ⟨s', hto.trans (hstep s' ?_ (by rw [hs'.rest])), hs'⟩
  rw [readToken_colon hr rfl (by simp [harrived.inFlow]), hvalue]

end DocMatch.Yaml.Scanner
