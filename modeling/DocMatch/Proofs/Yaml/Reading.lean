import DocMatch.Proofs.Json.Scalars
import DocMatch.Proofs.Yaml.Words

/-!
How YAML reads what JSON writes between quotes, and the words. A string literal without half a
surrogate pair has the same text, if its lines are kept: its gaps are blanks inside of a line or
line breaks alone, and both count as they are. A word ends at the blanks after it, which belong to
it, or at a mark.

    "a \u00e9\n"      words  a        gap  one blank        words  é and a line feed
-/

namespace DocMatch

open Json

/-! ### The text of a string literal -/

namespace Json

/-- The character that a spelling stands for, unless it is half of a surrogate pair. -/
def Spelling.char (p : Spelling) : Char := Char.ofNat p.unit

/-- The characters that a body stands for. -/
def Body.text (body : Body) : List Char := body.map Spelling.char

/-- Whether a spelling is a blank or a line break that is written as it is. -/
def Spelling.isGap : Spelling → Bool
  | plain c _ _ _ => Yaml.isSpaceOrBreak c
  | _ => false

/-- A body that is the same text in YAML. -/
structure Body.IsPortable (body : Body) : Prop where
  whole : body.all (isWholeUnit ·.unit) = true
  lines : keepsLines body.chars = true

@[simp] theorem Body.chars_cons (p : Spelling) (body : Body) :
    Body.chars (p :: body) = p.chars ++ Body.chars body := List.flatMap_cons

@[simp] theorem Body.chars_append (pre post : Body) :
    Body.chars (pre ++ post) = Body.chars pre ++ Body.chars post := List.flatMap_append

@[simp] theorem Body.chars_nil : Body.chars [] = [] := rfl

@[simp] theorem Body.text_append (pre post : Body) :
    Body.text (pre ++ post) = Body.text pre ++ Body.text post := List.map_append

theorem Body.length_le (body : Body) : body.length ≤ (Body.chars body).length := by
  induction body with
  | nil => exact Nat.zero_le _
  | cons p body ih =>
    have hp : 0 < p.chars.length := by cases p <;> exact Nat.succ_pos _
    simp only [chars_cons, List.length_cons, List.length_append]
    omega

theorem Spelling.of_isGap {p : Spelling} (h : p.isGap = true) :
    ∃ c, p.chars = [c] ∧ p.char = c ∧ Yaml.isSpaceOrBreak c = true := by
  cases p with
  | plain c _ _ _ => exact ⟨c, rfl, Char.ofNat_toNat c, h⟩
  | short _ _ _ => cases h
  | byNumber _ _ _ _ _ _ => cases h

/-- Blanks and breaks that are written as they are stand for themselves. -/
theorem Body.text_of_isGap {body : Body} (h : ∀ p ∈ body, p.isGap = true) :
    Body.text body = Body.chars body ∧ ∀ c ∈ Body.chars body, Yaml.isSpaceOrBreak c = true := by
  induction body with
  | nil => exact ⟨rfl, nofun⟩
  | cons p body ih =>
    obtain ⟨hp, hbody⟩ := List.forall_mem_cons.1 h
    obtain ⟨c, hchars, hchar, hc⟩ := Spelling.of_isGap hp
    obtain ⟨htext, hgap⟩ := ih hbody
    rw [chars_cons, hchars, ← htext, text, List.map_cons, hchar]
    refine ⟨rfl, List.forall_mem_cons.2 ⟨hc, ?_⟩⟩
    rwa [← htext] at hgap

theorem hexValue?_lt {c : Char} {n : Nat} (h : Draft.hexValue? c = some n) : n < 16 := by
  have hzero : '0'.toNat = 48 := rfl
  have ha : 'a'.toNat = 97 := rfl
  have hA : 'A'.toNat = 65 := rfl
  simp only [Draft.hexValue?, isDigit, Bool.and_eq_true, decide_eq_true_eq, Char.le_def,
    UInt32.le_iff_toNat_le] at h
  split at h
  · rename_i hc
    have : c.toNat ≤ 57 := hc.2
    obtain rfl := Option.some.inj h
    omega
  · split at h
    · rename_i hc
      have : c.toNat ≤ 102 := hc.2
      obtain rfl := Option.some.inj h
      omega
    · split at h
      · rename_i hc
        have : c.toNat ≤ 70 := hc.2
        obtain rfl := Option.some.inj h
        omega
      · cases h

theorem hexValue4?_lt {a b c d : Char} {n : Nat} (h : Draft.hexValue4? a b c d = some n) :
    n < 0x10000 := by
  obtain ⟨i, j, k, l, ha, hb, hc, hd, rfl⟩ := hexValue4?_eq_some_iff.1 h
  have := hexValue?_lt ha
  have := hexValue?_lt hb
  have := hexValue?_lt hc
  have := hexValue?_lt hd
  omega

/-- A unit that is no half of a pair is a code point of its own. -/
theorem Spelling.isValidChar {p : Spelling} (h : isWholeUnit p.unit = true) :
    p.unit.isValidChar := by
  cases p with
  | plain c _ _ _ => exact c.valid
  | short _ c _ => exact c.valid
  | byNumber a b c d n hn =>
    have := hexValue4?_lt hn
    change isWholeUnit n = true at h
    simp only [isWholeUnit, Draft.isLeading, Draft.isTrailing, Bool.and_eq_true,
      Bool.not_eq_true', Bool.and_eq_false_iff, decide_eq_false_iff_not] at h
    show n < 0xD800 ∨ 0xDFFF < n ∧ n < 0x110000
    omega

theorem Spelling.toNat_char {p : Spelling} (h : isWholeUnit p.unit = true) :
    p.char.toNat = p.unit := by
  rw [char, Char.ofNat, dif_pos (isValidChar h)]
  rfl

/-- JSON reads the text of a body of whole units. -/
theorem Body.text?_eq {body : Body} (h : body.all (isWholeUnit ·.unit) = true) :
    body.text? = some (String.ofList body.text) := by
  have hunits : body.units = body.text.map Char.toNat := by
    rw [Body.units, Body.text, List.map_map]
    exact List.map_congr_left fun p hp => (Spelling.toNat_char (List.all_eq_true.1 h p hp)).symm
  rw [Body.text?, hunits, Draft.join?_map_toNat]
  rfl

/-- The units of a body are read back from its characters. -/
theorem units?_body (body : Body) (rest : List Char) :
    Draft.units? (body.chars ++ '"' :: rest) = some (body.units, rest) := by
  induction body with
  | nil => rfl
  | cons p body ih =>
    rw [Body.chars_cons, List.append_assoc]
    cases p with
    | plain c hquote hslash hcontrol =>
      rw [Spelling.chars, List.singleton_append, Draft.units?, if_neg (by omega)]
      · simp [ih, Body.units, Spelling.unit]
      · exact hquote
      · exact fun _ _ _ _ _ h => absurd h hslash
      · exact fun _ _ h => absurd h hslash
    | short e c h =>
      have hu : e ≠ 'u' := by rintro rfl; cases h
      rw [Spelling.chars, List.cons_append, List.singleton_append, Draft.units?]
      · simp [h, ih, Body.units, Spelling.unit]
      · exact fun _ _ _ _ _ h => absurd h hu
    | byNumber a b c d n h =>
      simp [Spelling.chars, Draft.units?, h, ih, Body.units, Spelling.unit]

theorem Body.isPortable {body : Body} (h : (Piece.literal body.chars).isPortable = true) :
    body.IsPortable := by
  have hunits := units?_body body []
  simp only [Piece.isPortable, hunits, Option.any_some, Bool.and_eq_true] at h
  have hwhole := h.2
  rw [Body.units, List.all_map] at hwhole
  exact ⟨hwhole, h.1⟩

/-! ### The lines of a string literal -/

variable {c : Char} {cs gap more : List Char}

theorem of_keepsLines_append (h : keepsLines (cs ++ more) = true) : keepsLines more = true := by
  induction cs with
  | nil => exact h
  | cons c cs ih =>
    rw [List.cons_append, keepsLines, Bool.and_eq_true] at h
    exact ih h.2

/-- A gap that begins with a blank is blanks only. -/
theorem isSpace_of_keepsLines (h : keepsLines (c :: (gap ++ more)) = true)
    (hc : Yaml.isSpace c = true) (hgap : ∀ d ∈ gap, Yaml.isSpaceOrBreak d = true) :
    ∀ d ∈ c :: gap, Yaml.isSpace d = true := by
  induction gap generalizing c with
  | nil => exact List.forall_mem_singleton.2 hc
  | cons d gap ih =>
    obtain ⟨hd, hgap⟩ := List.forall_mem_cons.1 hgap
    have hbreak : Yaml.isBreak c = false := by
      simp only [Yaml.isSpace, Bool.or_eq_true, beq_iff_eq] at hc
      rcases hc with rfl | rfl <;> rfl
    rw [keepsLines, hbreak, hc, Bool.and_eq_true] at h
    have hd' : Yaml.isSpace d = true := by
      have hnone : Yaml.isBreak d = false := by simpa using h.1
      simpa [Yaml.isSpaceOrBreak, hnone] using hd
    exact List.forall_mem_cons.2 ⟨hc, ih h.2 hd' hgap⟩

/-- A gap that begins with a line break is separators only. -/
theorem isSeparator_of_keepsLines (h : keepsLines (c :: (gap ++ more)) = true)
    (hc : Yaml.isBreak c = true) (hgap : ∀ d ∈ gap, Yaml.isSpaceOrBreak d = true) :
    ∀ d ∈ c :: gap, isSeparator d = true := by
  induction gap generalizing c with
  | nil =>
    rw [keepsLines, hc] at h
    simp only [if_true, Bool.and_eq_true] at h
    exact List.forall_mem_singleton.2 h.1.1.1
  | cons d gap ih =>
    obtain ⟨hd, hgap⟩ := List.forall_mem_cons.1 hgap
    rw [keepsLines, hc] at h
    simp only [if_true, Bool.and_eq_true] at h
    obtain ⟨⟨⟨hseparator, hnone⟩, -⟩, hmore⟩ := h
    have hd' : Yaml.isBreak d = true := by
      have hspace : Yaml.isSpace d = false := by simpa using hnone
      simpa [Yaml.isSpaceOrBreak, hspace] using hd
    exact List.forall_mem_cons.2 ⟨hseparator, ih hmore hd' hgap⟩

theorem of_isSeparator (h : isSeparator c = true) :
    Yaml.isBreak c = true ∧ Yaml.isSpace c = false := by
  simp only [isSeparator, Bool.or_eq_true, beq_iff_eq] at h
  rcases h with rfl | rfl <;> exact ⟨rfl, rfl⟩

/-- The line after some separators is none between documents. -/
theorem atDocumentMarker_of_keepsLines (hlines : keepsLines (gap ++ more) = true)
    (hgap : ∀ d ∈ gap, isSeparator d = true) (hne : gap ≠ []) :
    (Yaml.Reader.start (more ++ ['"'])).atDocumentMarker = false := by
  have hlast := (of_isSeparator (hgap _ (List.getLast_mem hne))).1
  rw [← List.dropLast_append_getLast hne, List.append_assoc] at hlines
  have hkeeps := of_keepsLines_append hlines
  rw [List.singleton_append, keepsLines, hlast] at hkeeps
  simp only [if_true, Bool.and_eq_true] at hkeeps
  simpa using hkeeps.1.2

end Json

namespace Yaml

/-! ### Places -/

namespace Reader

@[simp] theorem skip_zero (r : Reader) : r.skip 0 = r := rfl

@[simp] theorem skip_skip (r : Reader) (m n : Nat) : (r.skip m).skip n = r.skip (m + n) := by
  simp [skip, Nat.add_assoc]

theorem skip_rest_append {r : Reader} {cs rest : List Char} (h : r.rest = cs ++ rest) :
    (r.skip cs.length).rest = rest := by
  rw [skip, h, List.drop_left]

/-- Behind a line break the blanks after it follow; a carriage return may take a line feed along. -/
theorem exists_skipBreak {r : Reader} {c : Char} {gap more : List Char} (hc : isBreak c = true)
    (hmore : Ends isSpaceOrBreak more) (h : r.rest = c :: (gap ++ more)) :
    ∃ left, left <:+ gap ∧ r.skipBreak.rest = left ++ more := by
  unfold skipBreak
  split
  · rename_i rest heq
    obtain ⟨rfl, hgap⟩ := List.cons.inj (h.symm.trans heq)
    cases gap with
    | nil => exact absurd (hmore '\n' (by rw [← List.nil_append more, hgap]; rfl)) (by decide)
    | cons d gap =>
      obtain ⟨rfl, rfl⟩ := List.cons.inj hgap
      exact ⟨gap, List.suffix_cons _ _, rfl⟩
  · rename_i d rest _ heq
    obtain ⟨rfl, rfl⟩ := List.cons.inj (h.symm.trans heq)
    exact ⟨gap, List.suffix_refl _, by rw [if_pos hc]⟩
  · rename_i heq
    rw [h] at heq
    cases heq

/-- A separator ends a line and counts as itself. -/
theorem skipBreak_separator {r : Reader} {c : Char} {rest : List Char} (hc : isSeparator c = true)
    (h : r.rest = c :: rest) :
    r.breakText = [c] ∧ r.skipBreak.rest = rest ∧ r.skipBreak.column = 0 := by
  simp only [isSeparator, Bool.or_eq_true, beq_iff_eq] at hc
  rcases hc with rfl | rfl <;> simp [breakText, skipBreak, h, isBreak]

theorem atDocumentMarker_of_column {r : Reader} (h : 0 < r.column) : r.atDocumentMarker = false := by
  simp [atDocumentMarker, atMarker, h.ne']

/-- What stands behind a closing quote does not make a line between documents. -/
theorem atDocumentMarker_eq {r : Reader} {cs rest : List Char} (hcolumn : r.column = 0)
    (h : r.rest = cs ++ '"' :: rest) :
    r.atDocumentMarker = (start (cs ++ ['"'])).atDocumentMarker := by
  rcases cs with _ | ⟨a, _ | ⟨b, _ | ⟨c, _ | ⟨d, cs⟩⟩⟩⟩ <;>
    simp [atDocumentMarker, atMarker, atGap, skip, start, h, hcolumn]

end Reader

/-! ### Gaps -/

/-- The blanks of JSON are blanks and line breaks. -/
theorem isSpaceOrBreak_of_isSpace {c : Char} (h : Draft.isSpace c = true) :
    isSpaceOrBreak c = true := by
  simp only [Draft.isSpace, Bool.or_eq_true, beq_iff_eq] at h
  rcases h with ((rfl | rfl) | rfl) | rfl <;> rfl

namespace Gap

variable {gap more : List Char} {bound : Nat}

/-- Where no blank and no break is, a gap ends. -/
theorem read_stop (indent : Option Nat) (bound : Nat) (g : Gap) {r : Reader}
    (h : Ends isSpaceOrBreak r.rest) : Gap.read indent (bound + 1) g r = .ok (g, r) := by
  rw [read]
  cases hrest : r.rest with
  | nil => rfl
  | cons c more =>
    have hc : isSpace c = false ∧ isBreak c = false := by
      simpa [isSpaceOrBreak] using h c (hrest ▸ rfl)
    simp [hc]

/-- Blanks inside of a line count as they are. -/
theorem read_spaces (indent : Option Nat) (hgap : ∀ c ∈ gap, isSpace c = true)
    (hmore : Ends isSpaceOrBreak more) (g : Gap) {r : Reader}
    (hbound : gap.length < bound) (hbroken : g.broken = false) (hrest : r.rest = gap ++ more) :
    Gap.read indent bound g r = .ok ({ g with blanks := g.blanks ++ gap }, r.skip gap.length) := by
  induction gap generalizing bound g r with
  | nil =>
    obtain ⟨bound, rfl⟩ := Nat.exists_eq_add_of_lt hbound
    rw [List.append_nil, List.length_nil, Reader.skip_zero, read_stop _ _ _ (hrest ▸ hmore)]
  | cons c gap ih =>
    obtain ⟨hc, hgap⟩ := List.forall_mem_cons.1 hgap
    obtain ⟨bound, rfl⟩ : ∃ n, bound = n + 1 := ⟨bound - 1, by omega⟩
    have hskip : (r.skip 1).rest = gap ++ more := by
      rw [Reader.skip, hrest]
      rfl
    obtain ⟨blanks, first, further, _⟩ := g
    cases hbroken
    rw [read, hrest, List.cons_append]
    simp only [hc, if_true, Bool.false_and, Bool.false_eq_true, if_false]
    rw [ih hgap _ (by simpa using hbound) rfl hskip]
    simp [Nat.add_comm]

/-- Separators behind a line break are kept. -/
theorem exists_read_separators (indent : Option Nat) (hgap : ∀ c ∈ gap, isSeparator c = true)
    (hmore : Ends isSpaceOrBreak more) (g : Gap) {r : Reader} (hbound : gap.length < bound)
    (hbroken : g.broken = true) (hcolumn : r.column = 0) (hrest : r.rest = gap ++ more) :
    ∃ r', Gap.read indent bound g r = .ok ({ g with more := g.more ++ gap }, r') ∧
      r'.rest = more ∧ r'.column = 0 := by
  induction gap generalizing bound g r with
  | nil =>
    obtain ⟨bound, rfl⟩ := Nat.exists_eq_add_of_lt hbound
    refine ⟨r, ?_, hrest, hcolumn⟩
    rw [List.append_nil, read_stop _ _ _ (hrest ▸ hmore)]
  | cons c gap ih =>
    obtain ⟨hc, hgap⟩ := List.forall_mem_cons.1 hgap
    obtain ⟨bound, rfl⟩ : ∃ n, bound = n + 1 := ⟨bound - 1, by omega⟩
    obtain ⟨htext, hskip, hcolumn'⟩ := Reader.skipBreak_separator hc hrest
    obtain ⟨hbreak, hspace⟩ := of_isSeparator hc
    obtain ⟨r', hread, hr', hcolumn''⟩ := ih hgap { g with more := g.more ++ [c] }
      (by simpa using hbound) hbroken hcolumn' hskip
    refine ⟨r', ?_, hr', hcolumn''⟩
    rw [read, hrest, List.cons_append]
    simpa [hspace, hbreak, hbroken, htext] using hread

/-- The blanks behind a word, with line breaks between them, are passed. -/
theorem exists_read_blanks (hgap : ∀ c ∈ gap, Draft.isSpace c = true)
    (hmore : Ends isSpaceOrBreak more) (g : Gap) {r : Reader}
    (hbound : gap.length < bound) (hrest : r.rest = gap ++ more) :
    ∃ g' r', Gap.read (some 0) bound g r = .ok (g', r') ∧ r'.rest = more := by
  induction bound generalizing gap g r with
  | zero => omega
  | succ bound ih =>
    cases gap with
    | nil => exact ⟨g, r, read_stop _ _ _ (hrest ▸ hmore), hrest⟩
    | cons c gap =>
      obtain ⟨hc, hgap⟩ := List.forall_mem_cons.1 hgap
      rw [read, hrest, List.cons_append]
      have hlength : gap.length < bound := by simpa using hbound
      by_cases hspace : isSpace c = true
      · have hskip : (r.skip 1).rest = gap ++ more := by
          rw [Reader.skip, hrest]
          rfl
        simpa [hspace] using ih hgap _ hlength hskip
      · have hbreak : isBreak c = true := by
          simpa [isSpaceOrBreak, hspace] using isSpaceOrBreak_of_isSpace hc
        obtain ⟨left, hleft, hskip⟩ := Reader.exists_skipBreak hbreak hmore hrest
        simpa [hspace, hbreak] using
          ih (fun d hd => hgap d (hleft.subset hd)) _ (hleft.length_le.trans_lt hlength) hskip

/-- A gap of a literal whose lines are kept counts as it is: it is blanks inside of a line, or else
separators. -/
theorem exists_read_kept {c : Char} {rest : List Char} {r : Reader}
    (hlines : keepsLines (c :: (gap ++ more)) = true)
    (hgap : ∀ d ∈ c :: gap, isSpaceOrBreak d = true)
    (hmore : Ends isSpaceOrBreak (more ++ '"' :: rest)) (hbound : (c :: gap).length < bound)
    (hrest : r.rest = (c :: gap) ++ (more ++ '"' :: rest)) :
    ∃ g r', Gap.read none bound {} r = .ok (g, r') ∧ g.text = c :: gap ∧
      r'.rest = more ++ '"' :: rest ∧ r'.atDocumentMarker = false ∧
      ((c :: gap).any isBreak = false → r' = r.skip (c :: gap).length) := by
  obtain ⟨hc, hgap⟩ := List.forall_mem_cons.1 hgap
  cases hbreak : isBreak c with
  | false =>
    have hspace : isSpace c = true := by simpa [isSpaceOrBreak, hbreak] using hc
    have hspaces := isSpace_of_keepsLines hlines hspace hgap
    refine ⟨_, _, read_spaces none hspaces hmore {} hbound rfl hrest, rfl,
      Reader.skip_rest_append hrest, Reader.atDocumentMarker_of_column ?_, fun _ => rfl⟩
    exact Nat.lt_of_lt_of_le (Nat.succ_pos _) (Nat.le_add_left _ _)
  | true =>
    have hseparators := isSeparator_of_keepsLines hlines hbreak hgap
    obtain ⟨hseparator, hothers⟩ := List.forall_mem_cons.1 hseparators
    obtain ⟨bound, rfl⟩ : ∃ n, bound = n + 1 := ⟨bound - 1, by omega⟩
    obtain ⟨htext, hskip, hcolumn⟩ := Reader.skipBreak_separator hseparator hrest
    obtain ⟨r', hread, hr', hcolumn'⟩ := exists_read_separators none hothers hmore
      ⟨[], [c], [], true⟩ (by simpa using hbound) rfl hcolumn hskip
    refine ⟨⟨[], [c], gap, true⟩, r', ?_, ?_, hr', ?_, ?_⟩
    · rw [read, hrest, List.cons_append]
      simpa [(of_isSeparator hseparator).2, hbreak, htext] using hread
    · have hfeed : c ≠ '\n' := by rintro rfl; cases hseparator
      simp [Gap.text, hfeed]
    · rw [Reader.atDocumentMarker_eq hcolumn' hr']
      exact atDocumentMarker_of_keepsLines hlines hseparators (List.cons_ne_nil _ _)
    · intro hnone
      rw [List.any_cons, hbreak] at hnone
      cases hnone

end Gap

/-! ### Quoted scalars -/

variable {p : Spelling} {body : Body} {rest words : List Char} {escaped : Bool} {bound : Nat}
  {r r' : Reader}

/-- The escapes of one letter are the same. -/
theorem readEscape_short {e c : Char} (h : Draft.unescape? e = some c) (hrest : r.rest = e :: rest) :
    readEscape r = .ok (c, r.skip 1) := by
  have hshort : shortEscape? e = some c := by
    unfold Draft.unescape? at h
    split at h <;> first | exact h | cases h
  rw [readEscape, hrest]
  simp [hshort]

/-- An escape by number has four digits. -/
theorem readEscape_number {a b c d : Char} {n : Nat} (h : Draft.hexValue4? a b c d = some n)
    (hvalid : n.isValidChar) (hrest : r.rest = 'u' :: a :: b :: c :: d :: rest) :
    readEscape r = .ok (Char.ofNat n, r.skip 5) := by
  have hnumber : hexNumber? [a, b, c, d] = some n := by
    obtain ⟨i, j, k, l, ha, hb, hc, hd, rfl⟩ := hexValue4?_eq_some_iff.1 h
    have hsame : ∀ x : Char, hexValue? x = Draft.hexValue? x := fun _ => rfl
    simp [hexNumber?, hsame, ha, hb, hc, hd, Nat.mul_comm]
  have hchar : charOf? n = some (Char.ofNat n) := by
    rw [charOf?, dif_pos hvalid, Char.ofNat, dif_pos hvalid]
  rw [readEscape, hrest]
  simp [shortEscape?, escapeWidth?, hnumber, hchar]

theorem readQuotedWords_escape {e x : Char} {mid : Reader} (hbreak : isBreak e = false)
    (hrest : r.rest = '\\' :: e :: rest) (hescape : readEscape (r.skip 1) = .ok (x, mid))
    (h : readQuotedWords false bound mid = .ok (words, escaped, r')) :
    readQuotedWords false (bound + 1) r = .ok (x :: words, escaped, r') := by
  have hslash : isSpaceOrBreak '\\' = false := rfl
  rw [readQuotedWords, hrest]
  simp [hslash, hbreak, hescape, h, bind, Except.bind, pure, Except.pure]

/-- A spelling that is no gap begins with none, and does not close the literal. -/
theorem exists_chars (hp : p.isGap = false) :
    ∃ c cs, p.chars = c :: cs ∧ isSpaceOrBreak c = false ∧ c ≠ '"' := by
  cases p with
  | plain c hquote _ _ => exact ⟨c, [], rfl, hp, hquote⟩
  | short e _ _ => exact ⟨'\\', [e], rfl, rfl, by decide⟩
  | byNumber a b c d _ _ => exact ⟨'\\', ['u', a, b, c, d], rfl, rfl, by decide⟩

/-- A spelling that is no gap is read as its character. -/
theorem readQuotedWords_spelling (hwhole : isWholeUnit p.unit = true) (hp : p.isGap = false)
    (hrest : r.rest = p.chars ++ rest)
    (h : readQuotedWords false bound (r.skip p.chars.length) = .ok (words, escaped, r')) :
    readQuotedWords false (bound + 1) r = .ok (p.char :: words, escaped, r') := by
  cases p with
  | plain c hquote hslash hcontrol =>
    have hspace : isSpaceOrBreak c = false := hp
    have hchar : (Spelling.plain c hquote hslash hcontrol).char = c := Char.ofNat_toNat c
    simp only [Spelling.chars, List.length_singleton] at h
    rw [readQuotedWords, hrest]
    simp [Spelling.chars, hspace, hquote, hslash, hchar, h]
  | short e c he =>
    have hbreak : isBreak e = false := by
      unfold Draft.unescape? at he
      split at he <;> first | rfl | cases he
    have hskip : (r.skip 1).rest = e :: rest := by rw [Reader.skip, hrest]; rfl
    have hchar : (Spelling.short e c he).char = c := Char.ofNat_toNat c
    have hescape := readEscape_short he hskip
    rw [Reader.skip_skip] at hescape
    rw [hchar]
    exact readQuotedWords_escape hbreak hrest hescape h
  | byNumber a b c d n hn =>
    have hskip : (r.skip 1).rest = 'u' :: a :: b :: c :: d :: rest := by
      rw [Reader.skip, hrest]
      rfl
    have hescape := readEscape_number hn (Spelling.isValidChar hwhole) hskip
    rw [Reader.skip_skip] at hescape
    exact readQuotedWords_escape rfl hrest hescape h

/-- Words end at a gap or at the closing quote. -/
theorem readQuotedWords_body (hwhole : body.all (isWholeUnit ·.unit) = true)
    (hbody : ∀ p ∈ body, p.isGap = false)
    (hstop : rest.head?.any (fun c => isSpaceOrBreak c || c == '"') = true)
    (hbound : body.length < bound) (hrest : r.rest = body.chars ++ rest) :
    readQuotedWords false bound r = .ok (body.text, false, r.skip body.chars.length) := by
  induction body generalizing bound r with
  | nil =>
    obtain ⟨bound, rfl⟩ : ∃ n, bound = n + 1 := ⟨bound - 1, by simp at hbound; omega⟩
    obtain ⟨c, cs, rfl⟩ : ∃ c cs, rest = c :: cs := by
      cases rest with
      | nil => cases hstop
      | cons c cs => exact ⟨c, cs, rfl⟩
    rw [readQuotedWords, hrest]
    by_cases hspace : isSpaceOrBreak c = true
    · simp [Body.chars, Body.text, hspace]
    · obtain rfl : c = '"' := by simpa [hspace] using hstop
      simp [Body.chars, Body.text]
  | cons p body ih =>
    obtain ⟨bound, rfl⟩ : ∃ n, bound = n + 1 := ⟨bound - 1, by simp at hbound; omega⟩
    simp only [List.all_cons, Bool.and_eq_true] at hwhole
    obtain ⟨hp, hbody⟩ := List.forall_mem_cons.1 hbody
    rw [Body.chars_cons, List.append_assoc] at hrest
    have hnext := ih hwhole.2 hbody (by simpa using hbound) (Reader.skip_rest_append hrest)
    rw [Reader.skip_skip] at hnext
    simpa [Body.text] using readQuotedWords_spelling hwhole.1 hp hrest hnext

/-- A body is words, a gap and a rest that starts with words. -/
theorem exists_parts (body : Body) : ∃ words gap more : Body, body = words ++ (gap ++ more) ∧
    (∀ p ∈ words, p.isGap = false) ∧ (∀ p ∈ gap, p.isGap = true) ∧
      (∀ p ∈ more.head?, p.isGap = false) ∧ (gap = [] → more = []) := by
  induction body with
  | nil => exact ⟨[], [], [], rfl, nofun, nofun, nofun, fun _ => rfl⟩
  | cons p body ih =>
    obtain ⟨words, gap, more, hbody, hwords, hgap, hmore, hnone⟩ := ih
    cases hp : p.isGap with
    | false =>
      refine ⟨p :: words, gap, more, by rw [hbody]; rfl, ?_, hgap, hmore, hnone⟩
      exact List.forall_mem_cons.2 ⟨hp, hwords⟩
    | true =>
      have hsingle : ∀ q ∈ [p], q.isGap = true := by
        intro q hq
        rwa [List.mem_singleton.1 hq]
      cases words with
      | nil =>
        refine ⟨[], p :: gap, more, by rw [hbody]; rfl, nofun, ?_, hmore, nofun⟩
        exact List.forall_mem_cons.2 ⟨hp, hgap⟩
      | cons q words =>
        refine ⟨[], [p], body, rfl, nofun, hsingle, ?_, nofun⟩
        rw [hbody]
        rintro _ ⟨⟩
        exact hwords q List.mem_cons_self

/-- A gap ends at a spelling that is none, or at the closing quote. -/
theorem ends_body (hbody : ∀ p ∈ body.head?, p.isGap = false) :
    Ends isSpaceOrBreak (body.chars ++ '"' :: rest) := by
  cases body with
  | nil =>
    rintro _ ⟨⟩
    rfl
  | cons p body =>
    obtain ⟨c, cs, hchars, hc, -⟩ := exists_chars (hbody p rfl)
    rw [Body.chars_cons, hchars]
    rintro _ ⟨⟩
    exact hc

section

variable {gap : Gap} {more : List Char} {mid next : Reader} (hmarker : r.atDocumentMarker = false)
  (hempty : r.rest.isEmpty = false)
  (hwords : readQuotedWords false (r.rest.length + 1) r = .ok (words, false, mid))

include hmarker hempty hwords

theorem readQuoted_close (hsees : mid.sees (· == '"') = true) :
    readQuoted false (bound + 1) r = .ok (words, mid.skip 1) := by
  rw [readQuoted, hmarker, hempty]
  simp [bind, Except.bind, pure, Except.pure, hwords, hsees]

theorem readQuoted_gap (hsees : mid.sees (· == '"') = false)
    (hgap : Gap.read none (mid.rest.length + 1) {} mid = .ok (gap, next))
    (hmore : readQuoted false bound next = .ok (more, r')) :
    readQuoted false (bound + 1) r = .ok (words ++ gap.text ++ more, r') := by
  rw [readQuoted, hmarker, hempty]
  simp [bind, Except.bind, pure, Except.pure, hwords, hsees, hgap, hmore]

end

/-- A literal is read as its text: its words up to a gap, the gap, and the rest of it in the same
way. -/
theorem exists_readQuoted (hbody : body.IsPortable) (hmarker : r.atDocumentMarker = false)
    (hbound : body.length < bound) (hrest : r.rest = body.chars ++ '"' :: rest) :
    ∃ r', readQuoted false bound r = .ok (body.text, r') ∧ r'.rest = rest ∧
      (body.chars.any isBreak = false → r' = r.skip (body.chars.length + 1)) := by
  induction bound generalizing body r with
  | zero => omega
  | succ bound ih =>
    have hempty : r.rest.isEmpty = false := by simp [hrest]
    obtain ⟨words, gap, more, rfl, hwords, hgap, hmore, hnone⟩ := exists_parts body
    obtain ⟨hwhole, hlines⟩ := hbody
    simp only [List.all_append, Bool.and_eq_true] at hwhole
    simp only [Body.chars_append, List.append_assoc] at hrest hlines
    have hlength : words.length < r.rest.length + 1 := by
      have := Body.length_le words
      simp only [hrest, List.length_append]
      omega
    have hskip := Reader.skip_rest_append hrest
    cases gap with
    | nil =>
      obtain rfl := hnone rfl
      have hread := readQuotedWords_body hwhole.1 hwords rfl hlength hrest
      have hsees : (r.skip (Body.chars words).length).sees (· == '"') = true := by
        rw [Reader.sees, hskip]
        rfl
      have hend : (r.skip ((Body.chars words).length + 1)).rest = rest := by
        rw [← Reader.skip_skip, Reader.skip, hskip]
        rfl
      refine ⟨_, ?_, hend, by simp⟩
      rw [readQuoted_close hmarker hempty hread hsees, Reader.skip_skip]
      simp
    | cons p gap =>
      obtain ⟨htext, hspaces⟩ := Body.text_of_isGap hgap
      obtain ⟨c, hc, -, -⟩ := Spelling.of_isGap (List.forall_mem_cons.1 hgap).1
      have hchars : Body.chars (p :: gap) = c :: Body.chars gap := by rw [Body.chars_cons, hc]; rfl
      rw [hchars] at hrest hlines hskip hspaces htext
      have hspace := (List.forall_mem_cons.1 hspaces).1
      have hread := readQuotedWords_body hwhole.1 hwords (by simp [hspace]) hlength hrest
      have hsees : (r.skip (Body.chars words).length).sees (· == '"') = false := by
        have hquote : c ≠ '"' := by rintro rfl; cases hspace
        simp [Reader.sees, hskip, hquote]
      have hlength : (c :: Body.chars gap).length <
          (r.skip (Body.chars words).length).rest.length + 1 := by
        rw [hskip, List.length_append]
        omega
      have hkept := of_keepsLines_append hlines
      obtain ⟨g, next, hgapRead, hgapText, hnext, hmarker', hnear⟩ :=
        Gap.exists_read_kept hkept hspaces (ends_body hmore) hlength hskip
      obtain ⟨r', hmoreRead, hr', hend⟩ := ih ⟨hwhole.2.2, of_keepsLines_append hkept⟩ hmarker'
        (by simp at hbound; omega) hnext
      refine ⟨r', ?_, hr', fun hbreaks => ?_⟩
      · rw [readQuoted_gap hmarker hempty hread hsees hgapRead hmoreRead, hgapText, ← htext,
          Body.text_append, Body.text_append, List.append_assoc]
      · rw [Body.chars_append, Body.chars_append, hchars] at hbreaks ⊢
        simp only [List.any_append, Bool.or_eq_false_iff] at hbreaks
        rw [hend hbreaks.2.2, hnear hbreaks.2.1, Reader.skip_skip, Reader.skip_skip,
          List.length_append, List.length_append]
        simp only [Nat.add_assoc]

/-! ### Words -/

/-- A word begins with a letter, a digit, or a minus before a digit. -/
theorem exists_start (w : Word) : ∃ c cs, w.chars = c :: cs ∧
    (isDigit c = true ∨ c = 'n' ∨ c = 't' ∨ c = 'f' ∨
      c = '-' ∧ ∃ d ds, cs = d :: ds ∧ isDigit d = true) := by
  cases w with
  | null => exact ⟨'n', ['u', 'l', 'l'], rfl, .inr (.inl rfl)⟩
  | boolean b =>
    cases b with
    | false => exact ⟨'f', ['a', 'l', 's', 'e'], rfl, .inr (.inr (.inr (.inl rfl)))⟩
    | true => exact ⟨'t', ['r', 'u', 'e'], rfl, .inr (.inr (.inl rfl))⟩
  | number f =>
    obtain ⟨d, ds, hmagnitude, hd, -⟩ := f.magnitude_cases
    rw [Word.chars, Figure.chars, hmagnitude]
    cases f.negative with
    | false => exact ⟨d, ds, rfl, .inl hd⟩
    | true => exact ⟨'-', d :: ds, rfl, .inr (.inr (.inr (.inr ⟨rfl, d, ds, rfl, hd⟩)))⟩

theorem atMarker_of_head {m c : Char} (h : r.rest = c :: rest) (hc : c ≠ m) :
    r.atMarker m = false := by
  cases rest with
  | nil => simp [Reader.atMarker, h]
  | cons d rest => cases rest <;> simp [Reader.atMarker, h, hc]

theorem atMarker_of_second {m c d : Char} (h : r.rest = c :: d :: rest) (hd : d ≠ m) :
    r.atMarker m = false := by
  cases rest <;> simp [Reader.atMarker, h, hd]

/-- No line between documents begins with a word. -/
theorem atMarker_word (w : Word) {m : Char} (hm : m = '-' ∨ m = '.')
    (h : r.rest = w.chars ++ rest) : r.atMarker m = false := by
  have hdigit : ∀ {c : Char}, isDigit c = true → c ≠ m := by
    rintro c hc rfl
    rcases hm with rfl | rfl <;> cases hc
  obtain ⟨c, cs, hchars, hc⟩ := exists_start w
  rw [hchars] at h
  rcases hc with hc | rfl | rfl | rfl | ⟨rfl, d, ds, rfl, hd⟩
  · exact atMarker_of_head h (hdigit hc)
  · exact atMarker_of_head h (by rcases hm with rfl | rfl <;> decide)
  · exact atMarker_of_head h (by rcases hm with rfl | rfl <;> decide)
  · exact atMarker_of_head h (by rcases hm with rfl | rfl <;> decide)
  · exact atMarker_of_second h (hdigit hd)

variable {inFlow : Bool}

/-- A word ends here: nothing follows, or a blank, or a mark inside of brackets. -/
def EndsWord (inFlow : Bool) (rest : List Char) : Prop :=
  ∀ c ∈ rest.head?, isSpaceOrBreak c = true ∨ (inFlow && isFlowMark c) = true

/-- The blanks behind a word end here too. -/
def EndsPlain (inFlow : Bool) (rest : List Char) : Prop :=
  ∀ c ∈ rest.head?, (inFlow && isFlowMark c) = true

theorem of_isFlowMark {c : Char} (h : isFlowMark c = true) : isSpaceOrBreak c = false ∧ c ≠ ':' := by
  simp only [isFlowMark, List.contains_eq_mem, List.mem_cons, List.not_mem_nil, or_false,
    decide_eq_true_eq] at h
  rcases h with rfl | rfl | rfl | rfl | rfl <;> decide

theorem EndsPlain.endsWord (h : EndsPlain inFlow rest) : EndsWord inFlow rest :=
  fun c hc => .inr (h c hc)

theorem EndsPlain.ends (h : EndsPlain inFlow rest) : Ends isSpaceOrBreak rest := fun c hc =>
  (of_isFlowMark (Bool.and_eq_true_iff.1 (h c hc)).2).1

theorem readPlainWords_stop (h : EndsWord inFlow rest) (bound : Nat) (hrest : r.rest = rest) :
    readPlainWords inFlow bound r = .ok ([], r) := by
  cases bound with
  | zero => rfl
  | succ bound =>
    rw [readPlainWords, hrest]
    cases rest with
    | nil => rfl
    | cons c rest =>
      rcases h c rfl with hspace | hmark
      · simp [hspace]
      · obtain ⟨hspace, hcolon⟩ := of_isFlowMark (Bool.and_eq_true_iff.1 hmark).2
        simp [hspace, hcolon, hmark]

/-- The characters of a word are read to its end. -/
theorem readPlainWords_word {cs : List Char} (hcs : ∀ c ∈ cs, c ∈ wordChars)
    (hends : EndsWord inFlow rest) (hbound : cs.length < bound) (hrest : r.rest = cs ++ rest) :
    readPlainWords inFlow bound r = .ok (cs, r.skip cs.length) := by
  induction cs generalizing bound r with
  | nil => exact readPlainWords_stop hends bound hrest
  | cons c cs ih =>
    obtain ⟨bound, rfl⟩ : ∃ n, bound = n + 1 := ⟨bound - 1, by simp at hbound; omega⟩
    obtain ⟨hc, hcs⟩ := List.forall_mem_cons.1 hcs
    have hclass := List.all_eq_true.1 (rfl : wordChars.all
      (fun c => !isSpaceOrBreak c && c != ':' && !isFlowMark c) = true) c hc
    simp only [Bool.and_eq_true, Bool.not_eq_true', bne_iff_ne] at hclass
    have hskip : (r.skip 1).rest = cs ++ rest := by rw [Reader.skip, hrest]; rfl
    have hnext := ih hcs (by simpa using hbound) hskip
    rw [Reader.skip_skip] at hnext
    rw [readPlainWords, hrest]
    simp [hclass, hnext, bind, Except.bind, pure, Except.pure, Nat.add_comm]

/-- Nothing more is read behind a word and its blanks. -/
theorem readPlain_stop (h : EndsPlain inFlow rest) (indent bound : Nat) (gap : Gap)
    (hrest : r.rest = rest) : readPlain inFlow indent bound gap r = .ok ([], gap.broken, r) := by
  cases bound with
  | zero => rfl
  | succ bound =>
    rw [readPlain]
    split
    · rfl
    · rw [readPlainWords_stop h.endsWord _ hrest]
      rfl

theorem sees_number_sign (w : Word) (h : r.rest = w.chars ++ rest) : r.sees (· == '#') = false := by
  obtain ⟨c, cs, hchars, -⟩ := exists_start w
  have hc : c ∈ wordChars := w.mem_wordChars (hchars ▸ List.mem_cons_self)
  have hne : c ≠ '#' := by rintro rfl; exact absurd hc (by decide)
  simp [Reader.sees, h, hchars, hne]

/-- A word is read as it is; the blanks behind it are passed. -/
theorem exists_readPlain (w : Word) (gap : Blanks)
    (hrest : r.rest = w.chars ++ (gap.chars ++ rest)) (hstop : EndsPlain inFlow rest)
    (bound : Nat) :
    ∃ broken r', readPlain inFlow 0 (bound + 1) {} r = .ok (w.chars, broken, r') ∧
      r'.rest = rest := by
  have hmarker : r.atDocumentMarker = false := by
    rw [Reader.atDocumentMarker, atMarker_word w (.inl rfl) hrest, atMarker_word w (.inr rfl) hrest]
    rfl
  have hlength : w.chars.length < r.rest.length + 1 := by
    rw [hrest, List.length_append]
    omega
  have hskip := Reader.skip_rest_append hrest
  have hne : w.chars.isEmpty = false := by simp [w.chars_ne_nil]
  rw [readPlain, hmarker, sees_number_sign w hrest]
  cases hcons : gap.chars with
  | nil =>
    rw [hcons, List.nil_append] at hrest hskip
    have hread := readPlainWords_word (fun _ => w.mem_wordChars) hstop.endsWord hlength hrest
    have hsees : (r.skip w.chars.length).sees isSpaceOrBreak = false := by
      rw [Reader.sees, hskip, Option.any_eq_false]
      exact fun c hc => by simp [hstop.ends c hc]
    refine ⟨false, r.skip w.chars.length, ?_, hskip⟩
    simp [hread, hne, hsees, bind, Except.bind, pure, Except.pure, Gap.text]
  | cons b bs =>
    have hb : isSpaceOrBreak b = true :=
      isSpaceOrBreak_of_isSpace (gap.isSpace b (hcons ▸ List.mem_cons_self))
    rw [hcons] at hrest hskip
    have hends : EndsWord inFlow (b :: bs ++ rest) := by
      rintro _ ⟨⟩
      exact .inl hb
    have hread := readPlainWords_word (fun _ => w.mem_wordChars) hends hlength hrest
    have hsees : (r.skip w.chars.length).sees isSpaceOrBreak = true := by
      rw [Reader.sees, hskip]
      exact hb
    have hbound : (b :: bs).length < (r.skip w.chars.length).rest.length + 1 := by
      rw [hskip, List.length_append]
      omega
    obtain ⟨g, r', hgap, hrest'⟩ :=
      Gap.exists_read_blanks (hcons ▸ gap.isSpace) hstop.ends {} hbound hskip
    have hstopped := readPlain_stop hstop 0 bound g hrest'
    refine ⟨g.broken, r', ?_, hrest'⟩
    simp [hread, hne, hsees, hgap, hstopped, bind, Except.bind, pure, Except.pure, Gap.text]

end Yaml

end DocMatch
