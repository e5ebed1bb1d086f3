import DocMatch.Proofs.Json.Script
import DocMatch.Proofs.Text.Classes

/-!
Cutting a JSON text into its pieces. Where a piece ends is seen from its own characters: a mark is
one character, a literal ends at the next quote that no backslash covers, a word where a blank, a
mark or a quote follows. So the pieces of a script are found again in its text without regard to
what they mean.

    {"a\"]": -1.5}        {    "a\"]"    :    -1.5    }
-/

namespace DocMatch

namespace Json

/-- The marks between values. -/
def isMark (c : Char) : Bool := ['[', ']', '{', '}', ',', ':'].contains c

/-- The characters of words. -/
def isWordChar (c : Char) : Bool := !(Draft.isSpace c || isMark c || c == '"')

/-- What stands before the closing quote, and what follows it; a backslash covers the character
after it. -/
def closeLiteral : List Char → List Char × List Char
  | '\\' :: c :: rest =>
    let (body, rest) := closeLiteral rest
    ('\\' :: c :: body, rest)
  | '"' :: rest => ([], rest)
  | c :: rest =>
    let (body, rest) := closeLiteral rest
    (c :: body, rest)
  | [] => ([], [])

/-- The piece that starts with a character, and what follows it. -/
def pieceAt (c : Char) (rest : List Char) : Piece × List Char :=
  if isMark c then (.mark c, rest)
  else if c == '"' then
    let (body, rest) := closeLiteral rest
    (.literal body, rest)
  else (.word (c :: rest.takeWhile isWordChar), rest.dropWhile isWordChar)

/-- Cuts a text into its pieces, each after its blanks, and the blanks at the end. -/
def cut : Nat → List Char → List (List Char × Piece) × List Char
  | 0, cs => ([], cs)
  | bound + 1, cs =>
    let gap := cs.takeWhile Draft.isSpace
    match cs.dropWhile Draft.isSpace with
    | [] => ([], gap)
    | c :: rest =>
      let (piece, rest) := pieceAt c rest
      let (pieces, last) := cut bound rest
      ((gap, piece) :: pieces, last)

/-- The pieces of a text, each after its blanks. Each takes a character, which bounds their
number. -/
def piecesOf (text : String) : List (List Char × Piece) := (cut text.length text.toList).1

/-- The blanks at the end of a text. -/
def lastBlanks (text : String) : List Char := (cut text.length text.toList).2

example : piecesOf " [\"]\\\"\" ,-1.5]" =
    [([' '], .mark '['), ([], .literal [']', '\\', '"']), ([' '], .mark ','),
      ([], .word ['-', '1', '.', '5']), ([], .mark ']')] := by decide +kernel

/-! ### The characters of words -/

/-- The characters that words are made of. -/
def wordChars : List Char :=
  ['+', '-', '.', '0', '1', '2', '3', '4', '5', '6', '7', '8', '9', 'E', 'a', 'e', 'f', 'l', 'n',
    'r', 's', 't', 'u']

theorem mem_wordChars_of_isDigit {c : Char} (h : isDigit c = true) : c ∈ wordChars := by
  have hall : ∀ n ∈ List.range' 48 10, Char.ofNat n ∈ wordChars := by decide
  have hc := hall c.toNat (List.mem_range'_1.2 (by rw [isDigit_iff] at h; omega))
  rwa [Char.ofNat_toNat] at hc

theorem Power.mem_wordChars (p : Power) {c : Char} (h : c ∈ p.chars) : c ∈ wordChars := by
  rcases List.mem_cons.1 h with rfl | h
  · rcases p.mark_eq with hmark | hmark <;> rw [hmark] <;> decide
  · rcases List.mem_append.1 h with h | h
    · rcases p.sign_eq with hsign | hsign | hsign <;> rw [hsign] at h
      · cases h
      · rw [List.mem_singleton.1 h]; decide
      · rw [List.mem_singleton.1 h]; decide
    · exact mem_wordChars_of_isDigit (p.isDigit c h)

theorem Figure.mem_wordChars (f : Figure) {c : Char} (h : c ∈ f.magnitude) : c ∈ wordChars := by
  rw [magnitude, tail] at h
  rcases List.mem_append.1 h with h | h
  · exact mem_wordChars_of_isDigit (f.whole_isDigit c h)
  · rcases List.mem_append.1 h with h | h
    · cases hplaces : f.places with
      | none => simp [hplaces] at h
      | some ds =>
        rw [hplaces] at h
        rcases List.mem_cons.1 h with rfl | h
        · decide
        · exact mem_wordChars_of_isDigit (f.places_isDigit ds hplaces c h)
    · cases hpower : f.power with
      | none => simp [hpower] at h
      | some p =>
        rw [hpower] at h
        exact p.mem_wordChars h

theorem mem_wordChars_of_all (cs : List Char) {c : Char}
    (hall : cs.all (decide <| · ∈ wordChars) = true) (h : c ∈ cs) : c ∈ wordChars :=
  of_decide_eq_true (List.all_eq_true.1 hall c h)

theorem Word.mem_wordChars (w : Word) {c : Char} (h : c ∈ w.chars) : c ∈ wordChars := by
  cases w with
  | null => exact mem_wordChars_of_all Word.null.chars rfl h
  | boolean b =>
    cases b with
    | false => exact mem_wordChars_of_all (Word.boolean false).chars rfl h
    | true => exact mem_wordChars_of_all (Word.boolean true).chars rfl h
  | number f =>
    rw [chars, Figure.chars] at h
    split at h
    · rcases List.mem_cons.1 h with rfl | h
      · decide
      · exact f.mem_wordChars h
    · exact f.mem_wordChars h

theorem isWordChar_of_mem {c : Char} (h : c ∈ wordChars) : isWordChar c = true :=
  List.all_eq_true.1 (rfl : wordChars.all isWordChar = true) c h

theorem Word.chars_ne_nil (w : Word) : w.chars ≠ [] := by
  cases w with
  | null => exact List.cons_ne_nil _ _
  | boolean b => cases b <;> exact List.cons_ne_nil _ _
  | number f =>
    intro h
    rw [chars, Figure.chars] at h
    split at h
    · cases h
    · exact f.whole_ne_nil (List.append_eq_nil_iff.1 h).1

/-! ### Pieces are found again -/

/-- A piece is found where it stands: it starts with no blank, and ends where it ends. -/
def Piece.Stands (p : Piece) (rest : List Char) : Prop :=
  ∃ c cs, p.chars = c :: cs ∧ Draft.isSpace c = false ∧ pieceAt c (cs ++ rest) = (p, rest)

variable {rest : List Char} {bound : Nat}

theorem stands_mark {c : Char} (h : isMark c = true) (hspace : Draft.isSpace c = false) :
    (Piece.mark c).Stands rest :=
  ⟨c, [], rfl, hspace, if_pos h⟩

theorem closeLiteral_cons {c : Char} (hquote : c ≠ '"') (hslash : c ≠ '\\') (cs : List Char) :
    closeLiteral (c :: cs) = (c :: (closeLiteral cs).1, (closeLiteral cs).2) := by
  rw [closeLiteral]
  · exact fun _ _ h => absurd h hslash
  · exact hquote

/-- The digits of an escape by number. -/
theorem hexValue4?_eq_some_iff {a b c d : Char} {n : Nat} :
    Draft.hexValue4? a b c d = some n ↔ ∃ i j k l, Draft.hexValue? a = some i ∧
      Draft.hexValue? b = some j ∧ Draft.hexValue? c = some k ∧ Draft.hexValue? d = some l ∧
        ((i * 16 + j) * 16 + k) * 16 + l = n := by
  simp only [Draft.hexValue4?, bind, pure, Option.bind_eq_some_iff, Option.some.injEq]
  constructor
  · rintro ⟨i, hi, j, hj, k, hk, l, hl, rfl⟩
    exact ⟨i, j, k, l, hi, hj, hk, hl, rfl⟩
  · rintro ⟨i, j, k, l, hi, hj, hk, hl, rfl⟩
    exact ⟨i, hi, j, hj, k, hk, l, hl, rfl⟩

/-- A digit in base sixteen is neither a quote nor a backslash. -/
theorem closeLiteral_digit {c : Char} {n : Nat} (h : Draft.hexValue? c = some n) (cs : List Char) :
    closeLiteral (c :: cs) = (c :: (closeLiteral cs).1, (closeLiteral cs).2) := by
  refine closeLiteral_cons ?_ ?_ cs <;> rintro rfl <;> cases h

/-- No character of a spelling closes the literal. -/
theorem closeLiteral_spelling (p : Spelling) (cs : List Char) :
    closeLiteral (p.chars ++ cs) = (p.chars ++ (closeLiteral cs).1, (closeLiteral cs).2) := by
  cases p with
  | plain c hquote hslash _ => exact closeLiteral_cons hquote hslash cs
  | short e _ _ => rfl
  | byNumber a b c d n h =>
    obtain ⟨i, j, k, l, ha, hb, hc, hd, -⟩ := hexValue4?_eq_some_iff.1 h
    rw [Spelling.chars, List.cons_append, List.cons_append, closeLiteral]
    simp only [List.cons_append, List.nil_append, closeLiteral_digit ha, closeLiteral_digit hb,
      closeLiteral_digit hc, closeLiteral_digit hd]

theorem closeLiteral_body (body : Body) (rest : List Char) :
    closeLiteral (body.chars ++ '"' :: rest) = (body.chars, rest) := by
  induction body with
  | nil => rfl
  | cons p body ih =>
    rw [Body.chars, List.flatMap_cons, List.append_assoc, closeLiteral_spelling]
    rw [Body.chars] at ih
    rw [ih]

theorem stands_literal (body : Body) : (Piece.literal body.chars).Stands rest := by
  refine ⟨'"', body.chars ++ ['"'], rfl, rfl, ?_⟩
  have hclose : pieceAt '"' (body.chars ++ '"' :: rest) =
      (.literal (closeLiteral (body.chars ++ '"' :: rest)).1,
        (closeLiteral (body.chars ++ '"' :: rest)).2) := rfl
  rw [List.append_assoc, List.singleton_append, hclose, closeLiteral_body]

theorem stands_word (w : Word) (h : Ends isWordChar rest) : (Piece.word w.chars).Stands rest := by
  obtain ⟨c, cs, hcons⟩ := List.exists_cons_of_ne_nil w.chars_ne_nil
  have hall : ∀ d ∈ c :: cs, isWordChar d = true := fun d hd =>
    isWordChar_of_mem (w.mem_wordChars (hcons ▸ hd))
  obtain ⟨hc, hcs⟩ := List.forall_mem_cons.1 hall
  have hword := hc
  simp only [isWordChar, Bool.not_eq_true', Bool.or_eq_false_iff] at hword
  obtain ⟨⟨hspace, hmark⟩, hquote⟩ := hword
  refine ⟨c, cs, hcons, hspace, ?_⟩
  rw [pieceAt, hmark, hquote, takeWhile_of_ends hcs h, dropWhile_of_ends hcs h, hcons]
  rfl

/-- Pieces are found where they stand, and what follows them is cut by itself. -/
structure AreCut (ps : List (List Char × Piece)) (rest : List Char) : Prop where
  length_le : ps.length ≤ (writePieces ps).length
  cut_eq : ∀ bound, cut (ps.length + bound) (writePieces ps ++ rest) =
    (ps ++ (cut bound rest).1, (cut bound rest).2)

namespace AreCut

variable {ps qs : List (List Char × Piece)}

theorem nil : AreCut [] rest :=
  ⟨Nat.le_refl 0, fun bound => by rw [List.length_nil, Nat.zero_add]; rfl⟩

theorem cons (gap : Blanks) {p : Piece} (h : p.Stands (writePieces ps ++ rest))
    (hps : AreCut ps rest) : AreCut ((gap.chars, p) :: ps) rest := by
  obtain ⟨c, cs, hcons, hspace, hpiece⟩ := h
  constructor
  · have := hps.length_le
    simp only [writePieces_cons, hcons, List.length_cons, List.length_append]
    omega
  · intro bound
    have hends : Ends Draft.isSpace (c :: (cs ++ (writePieces ps ++ rest))) := by
      rintro _ ⟨⟩
      exact hspace
    rw [List.length_cons, Nat.add_right_comm, cut, writePieces_cons, List.append_assoc,
      List.append_assoc, hcons, List.cons_append, takeWhile_of_ends gap.isSpace hends,
      dropWhile_of_ends gap.isSpace hends]
    dsimp only
    rw [hpiece]
    dsimp only
    rw [hps.cut_eq bound]
    rfl

theorem append (hps : AreCut ps (writePieces qs ++ rest)) (hqs : AreCut qs rest) :
    AreCut (ps ++ qs) rest := by
  constructor
  · have := hps.length_le
    have := hqs.length_le
    simp only [writePieces_append, List.length_append]
    omega
  · intro bound
    rw [List.length_append, Nat.add_assoc, writePieces_append, List.append_assoc, hps.cut_eq,
      hqs.cut_eq, List.append_assoc]

end AreCut

/-- A word ends before blanks with a mark after them. -/
theorem ends_mark (gap : Blanks) {c : Char} (h : isMark c = true)
    (more : List (List Char × Piece)) (rest : List Char) :
    Ends isWordChar (writePieces ((gap.chars, .mark c) :: more) ++ rest) := by
  intro d hd
  cases hgap : gap.chars with
  | nil =>
    obtain rfl : c = d := by simpa [hgap, Piece.chars] using hd
    simp [isWordChar, h]
  | cons b bs =>
    obtain rfl : b = d := by simpa [hgap] using hd
    have hspace : Draft.isSpace b = true := gap.isSpace b (hgap ▸ List.mem_cons_self)
    simp [isWordChar, hspace]

mutual

/-- The pieces of a script are found in its text. -/
theorem Script.areCut (x : Script) {rest : List Char} (h : Ends isWordChar rest) :
    AreCut x.pieces rest := by
  cases x with
  | word gap w => exact .cons gap (stands_word w h) .nil
  | string gap body => exact .cons gap (stands_literal body) .nil
  | emptyArray gap inner =>
    exact .cons gap (stands_mark rfl rfl) (.cons inner (stands_mark rfl rfl) .nil)
  | array gap items => exact .cons gap (stands_mark rfl rfl) items.areCut
  | emptyObject gap inner =>
    exact .cons gap (stands_mark rfl rfl) (.cons inner (stands_mark rfl rfl) .nil)
  | object gap members => exact .cons gap (stands_mark rfl rfl) members.areCut

theorem Items.areCut (xs : Items) {rest : List Char} : AreCut xs.pieces rest := by
  cases xs with
  | last item after =>
    exact .append (item.areCut (ends_mark after rfl [] rest))
      (.cons after (stands_mark rfl rfl) .nil)
  | next item after more =>
    exact .append (item.areCut (ends_mark after rfl more.pieces rest))
      (.cons after (stands_mark rfl rfl) more.areCut)

theorem Members.areCut (ms : Members) {rest : List Char} : AreCut ms.pieces rest := by
  cases ms with
  | last before name colon part after =>
    exact .cons before (stands_literal name) (.cons colon (stands_mark rfl rfl)
      (.append (part.areCut (ends_mark after rfl [] rest))
        (.cons after (stands_mark rfl rfl) .nil)))
  | next before name colon part after more =>
    exact .cons before (stands_literal name) (.cons colon (stands_mark rfl rfl)
      (.append (part.areCut (ends_mark after rfl more.pieces rest))
        (.cons after (stands_mark rfl rfl) more.areCut)))

end

/-- Blanks are no piece. -/
theorem cut_blanks (last : Blanks) (bound : Nat) : cut bound last.chars = ([], last.chars) := by
  cases bound with
  | zero => rfl
  | succ bound =>
    have hends : Ends Draft.isSpace [] := nofun
    have htake := takeWhile_of_ends last.isSpace hends
    have hdrop := dropWhile_of_ends last.isSpace hends
    rw [List.append_nil] at htake hdrop
    rw [cut, htake, hdrop]

/-- A text that is a script and some blanks consists of the pieces of the script and the blanks. -/
theorem piecesOf_eq {x : Script} {last : Blanks} {text : String}
    (h : text.toList = x.chars ++ last.chars) :
    piecesOf text = x.pieces ∧ lastBlanks text = last.chars := by
  have hends : Ends isWordChar last.chars := by
    intro c hc
    simp [isWordChar, last.isSpace c (List.mem_of_mem_head? hc)]
  have hcut := x.areCut hends
  have hlength : x.pieces.length + (text.length - x.pieces.length) = text.length := by
    have := hcut.length_le
    rw [← String.length_toList, h, List.length_append, Script.chars]
    omega
  have heq := hcut.cut_eq (text.length - x.pieces.length)
  rw [hlength, ← Script.chars, ← h, cut_blanks, List.append_nil] at heq
  rw [piecesOf, lastBlanks, heq]
  exact ⟨rfl, rfl⟩

end Json

end DocMatch
