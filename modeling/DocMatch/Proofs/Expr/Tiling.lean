import DocMatch.Proofs.Expr.Lexeme

/-!
Tokens tile their text. Between blanks the text consists of the characters from which its tokens are
read, each token at the column of the first of them:

    text       a-b . "x y" |  7
    extents    └─┘ ┘ └───┘ ┘  ┘
    columns    1   5 7     13 16     and then the end token, again and again, at 16

A name or a number takes in all characters of its class on both sides, a single `=` has no other
after it, and a string that is not closed is at the end. There is no other way to tile the text.
-/

namespace DocMatch

/-- No name and no number goes on from one character to the other. -/
def Parted (before after : List Char) : Prop :=
  ∀ c ∈ before.getLast?, ∀ d ∈ after.head?,
    ¬ (isNameChar c = true ∧ isNameChar d = true) ∧ ¬ (isDigit c = true ∧ isDigit d = true)

theorem parted_nil (after : List Char) : Parted [] after := nofun

theorem parted_concat {c : Char} (hname : isNameChar c = false) (hdigit : isDigit c = false)
    (before after : List Char) : Parted (before ++ [c]) after := by
  intro x hx d hd
  rw [List.getLast?_concat] at hx
  cases hx
  simp [hname, hdigit]

/-- Blanks part what is on both sides of them. -/
theorem Parted.skip {before gap after : List Char} (h : Parted before (gap ++ after))
    (hgap : ∀ c ∈ gap, isBlank c = true) : Parted (before ++ gap) after := by
  rcases List.eq_nil_or_concat gap with rfl | ⟨start, blank, rfl⟩
  · rwa [List.append_nil]
  · obtain ⟨_, hdigit, hname⟩ := of_isBlank (hgap blank (by simp))
    rw [List.concat_eq_append, ← List.append_assoc]
    exact parted_concat hname hdigit _ after

namespace Token

variable {kind : Kind} {text : String} {before extent after : List Char}

/-- The last character of what is not empty is among its characters. -/
theorem mem_of_getLast?_append {c : Char} (hne : extent ≠ [])
    (h : c ∈ (before ++ extent).getLast?) : c ∈ extent := by
  obtain ⟨start, last, rfl⟩ := (List.eq_nil_or_concat extent).resolve_left hne
  rw [List.concat_eq_append, ← List.append_assoc, List.getLast?_concat] at h
  cases h
  simp

/-- A lexeme is parted from what follows it. -/
theorem IsLexeme.parted (h : IsLexeme kind text extent after) (before : List Char) :
    Parted (before ++ extent) after := by
  cases h with
  | mark h =>
    simp only [List.mem_cons, List.not_mem_nil, or_false] at h
    rcases h with rfl | rfl | rfl | rfl
    · exact parted_concat (by decide) (by decide) before after
    · exact parted_concat (by decide) (by decide) before after
    · exact parted_concat (by decide) (by decide) before after
    · exact List.append_assoc before ['='] ['='] ▸
        parted_concat (by decide) (by decide) (before ++ ['=']) after
  | assign => exact parted_concat (by decide) (by decide) before after
  | @closed cs =>
    rw [← List.cons_append, ← List.append_assoc]
    exact parted_concat (by decide) (by decide) (before ++ '"' :: cs) after
  | unclosed => exact nofun
  | integer hne h hends =>
    intro c hc d hd
    simp [(of_isDigit (h c (mem_of_getLast?_append hne hc))).2.2, hends d hd]
  | identifier hne h hends =>
    intro c hc d hd
    simp [(of_isNameChar (h c (mem_of_getLast?_append hne hc))).2.2, hends d hd]
  | illegal _ _ hdigit hname => exact parted_concat hname hdigit before after

/-! ### Tiles -/

/-- A token where it stands: the characters before it, those from which it is read, and those after
it, with the tokens to which they belong. -/
structure Stands (before : List Char) (token : Token) (extent after : List Char)
    (others : List Token) : Prop where
  column : token.column = before.length + 1
  lexeme : IsLexeme token.kind token.text extent after
  begins : ∀ c ∈ before.getLast?, (token.kind = .identifier → isNameChar c = false) ∧
    (token.kind = .integer → isDigit c = false)
  last : token.kind = .string → extent = '"' :: token.text.toList → after = [] ∧ others = []

/-- Tokens that tile what is left of a text after some characters: blanks, then the extent of a
token, and so on, and blanks at the end. -/
inductive Tiles : List Char → List Char → List Token → Prop
  | tail {before gap : List Char} (hgap : ∀ c ∈ gap, isBlank c = true) : Tiles before gap []
  | token {before gap extent after : List Char} {token : Token} {others : List Token}
    (hgap : ∀ c ∈ gap, isBlank c = true) (h : Stands (before ++ gap) token extent after others)
    (hrest : Tiles (before ++ gap ++ extent) after others) :
    Tiles before (gap ++ (extent ++ after)) (token :: others)

/-- Tokens that tile a text are read from it. -/
theorem Tiles.tokens {cs : List Char} {tokens : List Token} (h : Tiles before cs tokens) :
    (⟨cs, before.length⟩ : Cursor).tokens = tokens := by
  induction h with
  | tail hgap => exact Cursor.tokens_blank hgap _
  | @token before gap extent after token others hgap h hrest ih =>
    obtain ⟨kind, column, text⟩ := token
    obtain rfl : column = (before ++ gap).length + 1 := h.column
    rw [Cursor.tokens_lexeme hgap h.lexeme]
    simp only [List.length_append] at ih ⊢
    rw [ih]

end Token

namespace Cursor

open Token

/-- A name or a number that is parted from what is before it begins where it stands. -/
theorem begins_of_parted {kind : Kind} {text : String} {before extent after : List Char}
    (hparted : Parted before (extent ++ after)) (h : IsLexeme kind text extent after) :
    ∀ c ∈ before.getLast?, (kind = .identifier → isNameChar c = false) ∧
      (kind = .integer → isDigit c = false) := by
  intro c hc
  obtain ⟨d, ds, rfl, _⟩ := h.head
  obtain ⟨hname, hdigit⟩ := hparted c hc d rfl
  refine ⟨?_, ?_⟩
  · rintro rfl
    cases h with
    | mark h => simp at h
    | identifier _ h => simpa [h d List.mem_cons_self] using hname
  · rintro rfl
    cases h with
    | mark h => simp at h
    | integer _ h => simpa [h d List.mem_cons_self] using hdigit

/-- Nothing follows a string that is not closed. -/
theorem eq_nil_of_unclosed {text : String} {extent after : List Char}
    (h : IsLexeme .string text extent after) (hextent : extent = '"' :: text.toList) :
    after = [] := by
  cases h with
  | mark h => simp at h
  | closed => simp at hextent
  | unclosed => rfl

/-- The tokens that are read tile what they are read from. -/
theorem tiles_tokens {before cs : List Char} (h : Parted before cs) :
    Tiles before cs (⟨cs, before.length⟩ : Cursor).tokens := by
  induction hlength : cs.length using Nat.strong_induction_on generalizing before cs with
  | _ length ih =>
    rcases next_cases cs with hblank | ⟨gap, kind, text, extent, after, rfl, hgap, hlexeme⟩
    · rw [tokens_blank hblank]
      exact .tail hblank
    · have hpos := hlexeme.length_pos
      have hshorter : after.length < length := by
        rw [← hlength, List.length_append, List.length_append]
        omega
      have hparted : Parted (before ++ gap) (extent ++ after) := h.skip hgap
      have hafter : Parted (before ++ gap ++ extent) after := hlexeme.parted (before ++ gap)
      have hrest := ih _ hshorter hafter rfl
      simp only [List.length_append] at hrest
      rw [tokens_lexeme hgap hlexeme]
      refine .token hgap ⟨?_, hlexeme, begins_of_parted hparted hlexeme, ?_⟩ hrest
      · rw [List.length_append]
      · rintro rfl hextent
        obtain rfl := eq_nil_of_unclosed hlexeme hextent
        exact ⟨rfl, tokens_nil _⟩

/-! ### The tokens one after the other -/

/-- The token that comes after so many others. -/
def nth (c : Cursor) : Nat → Token
  | 0 => c.next.1
  | n + 1 => c.next.2.nth n

theorem nth_blank {cs : List Char} (h : ∀ c ∈ cs, isBlank c = true) (n i : Nat) :
    (⟨cs, n⟩ : Cursor).nth i = ⟨.eof, n + cs.length, ""⟩ := by
  induction i generalizing cs n with
  | zero => rw [nth, next_blank h]
  | succ i ih =>
    rw [nth, next_blank h]
    exact ih (fun _ hc => absurd hc List.not_mem_nil) _

/-- First come the tokens up to the end, and then the end token for ever. -/
theorem nth_eq (c : Cursor) (i : Nat) : c.nth i = c.tokens[i]?.getD c.endToken := by
  induction i generalizing c with
  | zero =>
    obtain ⟨cs, n⟩ := c
    rcases next_cases cs with hblank | ⟨gap, kind, text, extent, after, rfl, hgap, hlexeme⟩
    · rw [nth_blank hblank, tokens_blank hblank]
      rfl
    · rw [nth, next_lexeme hgap hlexeme, tokens_lexeme hgap hlexeme]
      rfl
  | succ i ih =>
    obtain ⟨cs, n⟩ := c
    rcases next_cases cs with hblank | ⟨gap, kind, text, extent, after, rfl, hgap, hlexeme⟩
    · rw [nth_blank hblank, tokens_blank hblank]
      rfl
    · have hend : (⟨after, n + gap.length + extent.length⟩ : Cursor).endToken =
          (⟨gap ++ (extent ++ after), n⟩ : Cursor).endToken := by
        simp only [endToken, List.length_append, Nat.add_assoc]
      rw [nth, next_lexeme hgap hlexeme, tokens_lexeme hgap hlexeme, ih, hend,
        List.getElem?_cons_succ]

end Cursor

namespace Token

/-- The tokens of a text are finitely many, and after them comes the end token for ever, whose
column is the number of characters. They tile the text, and no others do. -/
theorem tokens_tile (text : String) :
    (∀ i, (Cursor.start text.toList).nth i = (tokens text)[i]?.getD (ending text)) ∧
    (∀ token ∈ tokens text, token.kind ≠ .eof) ∧
    ending text = ⟨.eof, text.length, ""⟩ ∧
    ∀ ts, Tiles [] text.toList ts ↔ ts = tokens text := by
  refine ⟨(Cursor.start text.toList).nth_eq, fun token htoken => ?_, ?_, fun ts => ⟨?_, ?_⟩⟩
  · obtain ⟨extent, after, hlexeme⟩ := Cursor.isLexeme_of_mem_tokens htoken
    exact hlexeme.ne_eof
  · rw [ending, Cursor.endToken, Cursor.start, String.length_toList, Nat.zero_add]
  · exact fun h => h.tokens.symm
  · rintro rfl
    exact Cursor.tiles_tokens (parted_nil _)

/-- A single `=`, with blanks around it, and a string that is not closed. -/
theorem tokens_tile_unclosed :
    Tiles [] "a-b = \"x y".toList
        [⟨.identifier, 1, "a-b"⟩, ⟨.assign, 5, "="⟩, ⟨.string, 7, "x y"⟩] ∧
      (Cursor.start "a-b = \"x y".toList).nth 7 = ⟨.eof, 10, ""⟩ := by
  obtain ⟨hnth, _, _, htiles⟩ := tokens_tile "a-b = \"x y"
  refine ⟨(htiles _).2 (by decide +kernel), (hnth 7).trans (by decide +kernel)⟩

end Token

end DocMatch
