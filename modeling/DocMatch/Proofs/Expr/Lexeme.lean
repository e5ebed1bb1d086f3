import DocMatch.Proofs.Text.Classes

/-!
Lexemes: the characters from which a token is read. A run of digits or of the characters of a name
reaches as far as it can, a single `=` is not followed by another, and a string without a closing
quote is at the end of the text. These conditions on what follows are all that reading looks at
beyond the token itself.

    written     a-b      ==     "x y"      |     7
    kind, text  name a-b        string x y       number 7
-/

namespace DocMatch

namespace Token

/-- The kind and the text of a token, the characters from which it is read, and what follows
them. -/
inductive IsLexeme : Kind → String → List Char → List Char → Prop
  | mark {kind : Kind} {rest : List Char} (h : kind ∈ [.dot, .pipe, .merge, .equal]) :
    IsLexeme kind kind.name kind.name.toList rest
  | assign {rest : List Char} (h : rest.head? ≠ some '=') : IsLexeme .assign "=" ['='] rest
  | closed {cs rest : List Char} (h : '"' ∉ cs) :
    IsLexeme .string (String.ofList cs) ('"' :: (cs ++ ['"'])) rest
  | unclosed {cs : List Char} (h : '"' ∉ cs) : IsLexeme .string (String.ofList cs) ('"' :: cs) []
  | integer {cs rest : List Char} (hne : cs ≠ []) (h : ∀ c ∈ cs, isDigit c = true)
    (hends : Ends isDigit rest) : IsLexeme .integer (String.ofList cs) cs rest
  | identifier {cs rest : List Char} (hne : cs ≠ []) (h : ∀ c ∈ cs, isNameChar c = true)
    (hends : Ends isNameChar rest) : IsLexeme .identifier (String.ofList cs) cs rest
  | illegal {c : Char} {rest : List Char} (hblank : isBlank c = false) (hmark : isMark c = false)
    (hdigit : isDigit c = false) (hname : isNameChar c = false) :
    IsLexeme .illegal (String.ofList [c]) [c] rest

/-- No lexeme is empty or begins with a blank. -/
theorem IsLexeme.head {kind : Kind} {text : String} {written rest : List Char}
    (h : IsLexeme kind text written rest) :
    ∃ c cs, written = c :: cs ∧ isBlank c = false := by
  cases h with
  | mark h =>
    simp only [List.mem_cons, List.not_mem_nil, or_false] at h
    rcases h with rfl | rfl | rfl | rfl <;> exact ⟨_, _, rfl, by decide⟩
  | assign => exact ⟨'=', [], rfl, by decide⟩
  | closed => exact ⟨'"', _, rfl, by decide⟩
  | unclosed => exact ⟨'"', _, rfl, by decide⟩
  | integer hne h =>
    obtain ⟨c, cs, rfl⟩ := List.exists_cons_of_ne_nil hne
    exact ⟨c, cs, rfl, (of_isDigit (h c List.mem_cons_self)).1⟩
  | identifier hne h =>
    obtain ⟨c, cs, rfl⟩ := List.exists_cons_of_ne_nil hne
    exact ⟨c, cs, rfl, (of_isNameChar (h c List.mem_cons_self)).1⟩
  | illegal hblank => exact ⟨_, [], rfl, hblank⟩

theorem IsLexeme.length_pos {kind : Kind} {text : String} {written rest : List Char}
    (h : IsLexeme kind text written rest) : 0 < written.length := by
  obtain ⟨c, cs, rfl, _⟩ := h.head
  exact Nat.succ_pos _

theorem IsLexeme.ne_eof {kind : Kind} {text : String} {written rest : List Char}
    (h : IsLexeme kind text written rest) : kind ≠ .eof := by
  cases h with
  | mark h =>
    rintro rfl
    simp at h
  | _ => nofun

/-- A name is not empty and has characters of names only. -/
theorem IsLexeme.identifier_text {text : String} {written rest : List Char}
    (h : IsLexeme .identifier text written rest) :
    text.toList ≠ [] ∧ ∀ c ∈ text.toList, isNameChar c = true := by
  cases h with
  | mark h => simp at h
  | identifier hne h => rw [String.toList_ofList]; exact ⟨hne, h⟩

/-- A string is written without quotes inside. -/
theorem IsLexeme.string_text {text : String} {written rest : List Char}
    (h : IsLexeme .string text written rest) : '"' ∉ text.toList := by
  cases h with
  | mark h => simp at h
  | closed h => rwa [String.toList_ofList]
  | unclosed h => rwa [String.toList_ofList]

/-- A run of a class that has its first character. -/
theorem exists_run {p : Char → Bool} {x : Char} (hx : p x = true) (rest : List Char) :
    ∃ run rest', x :: rest = run ++ rest' ∧ run ≠ [] ∧ (∀ c ∈ run, p c = true) ∧ Ends p rest' := by
  refine ⟨(x :: rest).takeWhile p, (x :: rest).dropWhile p, List.takeWhile_append_dropWhile.symm,
    ?_, fun c hc => List.mem_takeWhile_imp hc, ends_dropWhile p _⟩
  rw [List.takeWhile_cons_of_pos hx]
  exact List.cons_ne_nil _ _

/-- After a quote there is a string, closed or not. -/
theorem exists_lexeme_quote (body : List Char) :
    ∃ text written rest, '"' :: body = written ++ rest ∧ IsLexeme .string text written rest := by
  have hsplit : body.takeWhile (· != '"') ++ body.dropWhile (· != '"') = body :=
    List.takeWhile_append_dropWhile
  have hcs : '"' ∉ body.takeWhile (· != '"') := fun h => by simpa using List.mem_takeWhile_imp h
  have hends := ends_dropWhile (· != '"') body
  generalize body.takeWhile (· != '"') = cs at hsplit hcs
  generalize body.dropWhile (· != '"') = after at hsplit hends
  subst hsplit
  cases after with
  | nil => exact ⟨_, '"' :: cs, [], by rw [List.append_nil, List.append_nil], .unclosed hcs⟩
  | cons c rest =>
    obtain rfl : c = '"' := by simpa using hends c rfl
    exact ⟨_, '"' :: (cs ++ ['"']), rest, by simp, .closed hcs⟩

/-- Where no blank stands there is a lexeme. -/
theorem exists_lexeme {x : Char} (hblank : isBlank x = false) (rest : List Char) :
    ∃ kind text written rest', x :: rest = written ++ rest' ∧
      IsLexeme kind text written rest' := by
  cases hmark : isMark x with
  | true =>
    simp only [isMark, Bool.or_eq_true, beq_iff_eq] at hmark
    rcases hmark with (((rfl | rfl) | rfl) | rfl) | rfl
    · exact ⟨.dot, _, _, rest, rfl, .mark (by decide)⟩
    · exact ⟨.pipe, _, _, rest, rfl, .mark (by decide)⟩
    · exact ⟨.merge, _, _, rest, rfl, .mark (by decide)⟩
    · by_cases hassign : rest.head? = some '='
      · obtain ⟨rest', rfl⟩ := List.head?_eq_some_iff.1 hassign
        exact ⟨.equal, _, _, rest', rfl, .mark (by decide)⟩
      · exact ⟨.assign, _, _, rest, rfl, .assign hassign⟩
    · exact ⟨_, exists_lexeme_quote rest⟩
  | false =>
    cases hdigit : isDigit x with
    | true =>
      obtain ⟨run, rest', hsplit, hne, hrun, hends⟩ := exists_run hdigit rest
      exact ⟨_, _, run, rest', hsplit, .integer hne hrun hends⟩
    | false =>
      cases hname : isNameChar x with
      | true =>
        obtain ⟨run, rest', hsplit, hne, hrun, hends⟩ := exists_run hname rest
        exact ⟨_, _, run, rest', hsplit, .identifier hne hrun hends⟩
      | false => exact ⟨_, _, [x], rest, rfl, .illegal hblank hmark hdigit hname⟩

end Token

namespace Cursor

open Token

variable {kind : Kind} {text : String} {written rest : List Char} {n : Nat} {x : Char}

/-- What begins with no mark is a number, a name or illegal. -/
theorem read_of_not_mark (h : isMark x = false) :
    (⟨x :: rest, n⟩ : Cursor).read =
      if isDigit x then (⟨x :: rest, n⟩ : Cursor).run .integer isDigit
      else if isNameChar x then (⟨x :: rest, n⟩ : Cursor).run .identifier isNameChar
      else (⟨.illegal, n + 1, String.ofList [x]⟩, ⟨rest, n + 1⟩) := by
  simp only [isMark, Bool.or_eq_false_iff, beq_eq_false_iff_ne] at h
  unfold read
  split <;> simp_all

theorem run_of_ends {p : Char → Bool} (h : ∀ c ∈ written, p c = true) (hends : Ends p rest) :
    (⟨written ++ rest, n⟩ : Cursor).run kind p =
      (⟨kind, n + 1, String.ofList written⟩, ⟨rest, n + written.length⟩) := by
  simp only [run, skip, takeWhile_of_ends h hends, dropWhile_of_ends h hends]

theorem read_assign (h : rest.head? ≠ some '=') :
    (⟨'=' :: rest, n⟩ : Cursor).read = (⟨.assign, n + 1, "="⟩, ⟨rest, n + 1⟩) := by
  unfold read
  split
  case h_5 heq =>
    obtain ⟨_, rfl⟩ := List.cons.inj heq
    exact absurd rfl h
  case h_6 heq =>
    obtain ⟨_, rfl⟩ := List.cons.inj heq
    rfl
  case h_8 hassign _ heq =>
    exact absurd (List.cons.inj heq).1.symm hassign
  all_goals cases ‹ '=' :: rest = _›

theorem ne_quote {cs : List Char} (h : '"' ∉ cs) : ∀ c ∈ cs, (c != '"') = true :=
  fun _ hc => bne_iff_ne.2 fun heq => h (heq ▸ hc)

theorem quoted_closed {cs : List Char} (h : '"' ∉ cs) (c : Cursor) :
    c.quoted (cs ++ '"' :: rest) =
      (⟨.string, c.consumed + 1, String.ofList cs⟩, ⟨rest, c.consumed + 2 + cs.length⟩) := by
  have hends : Ends (· != '"') ('"' :: rest) := by
    rintro _ ⟨⟩
    rfl
  simp only [quoted, takeWhile_of_ends (ne_quote h) hends, dropWhile_of_ends (ne_quote h) hends]

theorem quoted_unclosed {cs : List Char} (h : '"' ∉ cs) (c : Cursor) :
    c.quoted cs =
      (⟨.string, c.consumed + 1, String.ofList cs⟩, ⟨[], c.consumed + 1 + cs.length⟩) := by
  have hends : Ends (· != '"') [] := nofun
  have htake := takeWhile_of_ends (ne_quote h) hends
  have hdrop := dropWhile_of_ends (ne_quote h) hends
  rw [List.append_nil] at htake hdrop
  simp only [quoted, htake, hdrop]

/-- A lexeme is read as its token. -/
theorem read_lexeme (h : IsLexeme kind text written rest) (n : Nat) :
    (⟨written ++ rest, n⟩ : Cursor).read =
      (⟨kind, n + 1, text⟩, ⟨rest, n + written.length⟩) := by
  cases h with
  | mark h =>
    simp only [List.mem_cons, List.not_mem_nil, or_false] at h
    rcases h with rfl | rfl | rfl | rfl <;> rfl
  | assign h => exact read_assign h
  | @closed cs rest h =>
    have hlength : n + 2 + cs.length = n + ('"' :: (cs ++ ['"'])).length := by
      simp only [List.length_cons, List.length_append, List.length_nil]
      omega
    rw [List.cons_append, List.append_assoc, ← hlength]
    exact quoted_closed h ⟨_, n⟩
  | @unclosed cs h =>
    have hlength : n + 1 + cs.length = n + ('"' :: cs).length := by
      rw [List.length_cons]
      omega
    rw [List.append_nil, ← hlength]
    exact quoted_unclosed h ⟨_, n⟩
  | integer hne h hends =>
    obtain ⟨c, cs, rfl⟩ := List.exists_cons_of_ne_nil hne
    have hc := h c List.mem_cons_self
    rw [List.cons_append, read_of_not_mark (of_isDigit hc).2.1, if_pos hc]
    exact run_of_ends h hends
  | identifier hne h hends =>
    obtain ⟨c, cs, rfl⟩ := List.exists_cons_of_ne_nil hne
    have hc := h c List.mem_cons_self
    obtain ⟨_, hmark, hdigit⟩ := of_isNameChar hc
    rw [List.cons_append, read_of_not_mark hmark, if_neg (by simp [hdigit]), if_pos hc]
    exact run_of_ends h hends
  | illegal _ hmark hdigit hname =>
    rw [List.cons_append, read_of_not_mark hmark, if_neg (by simp [hdigit]),
      if_neg (by simp [hname])]
    rfl

/-! ### The next token -/

/-- Blanks before a lexeme are skipped, and the lexeme is read. -/
theorem next_lexeme {gap : List Char} (hgap : ∀ c ∈ gap, isBlank c = true)
    (h : IsLexeme kind text written rest) (n : Nat) :
    (⟨gap ++ (written ++ rest), n⟩ : Cursor).next =
      (⟨kind, n + gap.length + 1, text⟩, ⟨rest, n + gap.length + written.length⟩) := by
  have hends : Ends isBlank (written ++ rest) := by
    obtain ⟨c, cs, rfl, hblank⟩ := h.head
    rintro _ ⟨⟩
    exact hblank
  rw [next, skip, takeWhile_of_ends hgap hends, dropWhile_of_ends hgap hends]
  exact read_lexeme h _

/-- After the last token only blanks are skipped. -/
theorem next_blank {cs : List Char} (h : ∀ c ∈ cs, isBlank c = true) (n : Nat) :
    (⟨cs, n⟩ : Cursor).next = (⟨.eof, n + cs.length, ""⟩, ⟨[], n + cs.length⟩) := by
  have hends : Ends isBlank [] := nofun
  have htake := takeWhile_of_ends h hends
  have hdrop := dropWhile_of_ends h hends
  rw [List.append_nil] at htake hdrop
  rw [next, skip, htake, hdrop, read]

/-- What is left of a text is blank, or there is a lexeme after some blanks. -/
theorem next_cases (cs : List Char) :
    (∀ c ∈ cs, isBlank c = true) ∨
      ∃ gap kind text written rest, cs = gap ++ (written ++ rest) ∧
        (∀ c ∈ gap, isBlank c = true) ∧ IsLexeme kind text written rest := by
  have hsplit : cs.takeWhile isBlank ++ cs.dropWhile isBlank = cs :=
    List.takeWhile_append_dropWhile
  have hgap : ∀ c ∈ cs.takeWhile isBlank, isBlank c = true := fun c hc =>
    List.mem_takeWhile_imp hc
  have hends := ends_dropWhile isBlank cs
  cases hrest : cs.dropWhile isBlank with
  | nil =>
    rw [hrest, List.append_nil] at hsplit
    exact Or.inl (hsplit ▸ hgap)
  | cons x more =>
    rw [hrest] at hsplit hends
    obtain ⟨kind, text, written, rest, hwritten, hlexeme⟩ := exists_lexeme (hends x rfl) more
    rw [hwritten] at hsplit
    exact Or.inr ⟨_, kind, text, written, rest, hsplit.symm, hgap, hlexeme⟩

/-! ### From place to place -/

/-- Reading from one place to another, with the tokens on the way. -/
inductive Reads : Cursor → List Token → Cursor → Prop
  | here (c : Cursor) : Reads c [] c
  | next {c d : Cursor} {tokens : List Token} (h : c.next.1.kind ≠ .eof)
    (hrest : Reads c.next.2 tokens d) : Reads c (c.next.1 :: tokens) d

theorem Reads.trans {c d e : Cursor} {before after : List Token} (h : Reads c before d)
    (hrest : Reads d after e) : Reads c (before ++ after) e := by
  induction h with
  | here => exact hrest
  | next hkind _ ih => exact .next hkind (ih hrest)

theorem Reads.tokens {c d : Cursor} {before : List Token} (h : Reads c before d) :
    c.tokens = before ++ d.tokens := by
  induction h with
  | here => rfl
  | next hkind _ ih => rw [Cursor.tokens, dif_neg hkind, ih, List.cons_append]

theorem tokens_blank {cs : List Char} (h : ∀ c ∈ cs, isBlank c = true) (n : Nat) :
    (⟨cs, n⟩ : Cursor).tokens = [] := by
  rw [tokens, next_blank h n]
  exact dif_pos rfl

theorem tokens_nil (n : Nat) : (⟨[], n⟩ : Cursor).tokens = [] :=
  tokens_blank (fun _ hc => absurd hc List.not_mem_nil) n

theorem tokens_lexeme {gap : List Char} (hgap : ∀ c ∈ gap, isBlank c = true)
    (h : IsLexeme kind text written rest) (n : Nat) :
    (⟨gap ++ (written ++ rest), n⟩ : Cursor).tokens =
      ⟨kind, n + gap.length + 1, text⟩ ::
        (⟨rest, n + gap.length + written.length⟩ : Cursor).tokens := by
  rw [tokens, next_lexeme hgap h n]
  exact dif_neg h.ne_eof

/-- Nothing is skipped before a lexeme. -/
theorem reads_lexeme (h : IsLexeme kind text written rest) (n : Nat) :
    Reads ⟨written ++ rest, n⟩ [⟨kind, n + 1, text⟩] ⟨rest, n + written.length⟩ := by
  have hgap : ∀ c ∈ ([] : List Char), isBlank c = true := fun _ hc => absurd hc List.not_mem_nil
  have hnext : (⟨written ++ rest, n⟩ : Cursor).next =
      (⟨kind, n + 1, text⟩, ⟨rest, n + written.length⟩) := next_lexeme hgap h n
  have hreads := Reads.next (c := ⟨written ++ rest, n⟩) (by rw [hnext]; exact h.ne_eof) (.here _)
  rwa [hnext] at hreads

/-- Each token comes from a lexeme. -/
theorem isLexeme_of_mem_tokens {c : Cursor} {token : Token} (h : token ∈ c.tokens) :
    ∃ written rest, IsLexeme token.kind token.text written rest := by
  induction c using tokens.induct with
  | case1 c hend =>
    rw [tokens, dif_pos hend] at h
    cases h
  | case2 c hkind ih =>
    obtain ⟨cs, n⟩ := c
    rcases next_cases cs with hblank | ⟨gap, kind, text, written, rest, rfl, hgap, hlexeme⟩
    · rw [tokens_blank hblank] at h
      cases h
    · rw [tokens_lexeme hgap hlexeme, List.mem_cons] at h
      rcases h with rfl | h
      · exact ⟨written, rest, hlexeme⟩
      · rw [next_lexeme hgap hlexeme] at ih
        exact ih h

end Cursor

end DocMatch
