import DocMatch.Proofs.Expr.Lexeme
import DocMatch.Proofs.Expr.Acceptance

/-!
Gaps between tokens. Reading a token looks no further than the character after it, and that only to
see whether the token goes on; a blank never makes it go on. So blanks that are put in at a place
within no token move the tokens after that place, and nothing else becomes of any token:

    a-b.0=="x"|7         columns  1 4 5 6 8 11 12     end 12
    a-b.0==   "x"|7      columns  1 4 5 6 11 14 15    end 15

And reading an expression looks at what its tokens are and say, not at where they stand: it gives the
same stages, or the same fault at the same token, wherever that has moved to.
-/

namespace DocMatch

/-! ### Places between tokens -/

namespace Token

/-- Where a token ends, as a number of characters. A string has a quote on both sides; one that is
not closed would end with a quote after the end of the text, so no place of the text is behind it. -/
def stop (t : Token) : Nat :=
  t.column - 1 + t.text.length + if t.kind = .string then 2 else 0

/-- A place of a text, as a number of characters before it, that lies within no token. -/
def IsBoundary (text : String) (place : Nat) : Prop :=
  ∀ t ∈ tokens text, t.stop ≤ place ∨ place < t.column

instance (text : String) : DecidablePred (IsBoundary text) := fun place =>
  inferInstanceAs (Decidable (∀ t ∈ tokens text, t.stop ≤ place ∨ place < t.column))

/-- A token after so many blanks more are put in at a place: it moves if it stands there or later,
as the end token always does. -/
def shift (place blanks : Nat) (t : Token) : Token :=
  if t.kind = .eof ∨ place < t.column then { t with column := t.column + blanks } else t

theorem ending_eq (text : String) : ending text = ⟨.eof, text.length, ""⟩ := by
  rw [ending, Cursor.endToken, Cursor.start, String.length_toList, Nat.zero_add]

variable {kind : Kind} {text : String} {written rest before after gap : List Char}

/-- What may follow a run of a class may follow it after blanks. -/
theorem ends_gap {p : Char → Bool} (hgap : ∀ c ∈ gap, isBlank c = true)
    (hp : ∀ c, isBlank c = true → p c = false) (h : Ends p (before ++ after)) :
    Ends p (before ++ (gap ++ after)) := by
  cases before with
  | cons c before => exact h
  | nil =>
    cases gap with
    | nil => exact h
    | cons blank gap =>
      rintro _ ⟨⟩
      exact hp blank (hgap blank List.mem_cons_self)

/-- A token ends where its characters end, and a string that is not closed one further. -/
theorem IsLexeme.stop_eq (h : IsLexeme kind text written rest) (n : Nat) :
    stop ⟨kind, n + 1, text⟩ = n + written.length ∨
      rest = [] ∧ stop ⟨kind, n + 1, text⟩ = n + written.length + 1 := by
  cases h with
  | mark h =>
    simp only [List.mem_cons, List.not_mem_nil, or_false] at h
    rw [stop, String.length_toList]
    rcases h with rfl | rfl | rfl | rfl <;> exact Or.inl (by simp)
  | closed =>
    refine Or.inl ?_
    simp [stop]
    omega
  | unclosed =>
    refine Or.inr ⟨rfl, ?_⟩
    simp [stop]
    omega
  | assign => exact Or.inl (by simp [stop, show "=".length = 1 from rfl])
  | integer | identifier | illegal => exact Or.inl (by simp [stop])

/-- A token that ends in the text ends where its characters end. -/
theorem IsLexeme.stop_eq_of_le (h : IsLexeme kind text written rest) {n : Nat}
    (hle : stop ⟨kind, n + 1, text⟩ ≤ n + written.length + rest.length) :
    stop ⟨kind, n + 1, text⟩ = n + written.length := by
  rcases h.stop_eq n with hstop | ⟨rfl, hstop⟩
  · exact hstop
  · rw [hstop, List.length_nil] at hle
    omega

/-- Blanks put in somewhere after a token that has come to its end leave it the same. -/
theorem IsLexeme.gapped {n : Nat} (h : IsLexeme kind text written (before ++ after))
    (hstop : stop ⟨kind, n + 1, text⟩ = n + written.length)
    (hgap : ∀ c ∈ gap, isBlank c = true) :
    IsLexeme kind text written (before ++ (gap ++ after)) := by
  generalize hrest : before ++ after = rest at h
  cases h with
  | mark h => exact .mark h
  | assign h =>
    have hends : Ends (· == '=') (before ++ after) := by
      intro c hc
      rw [hrest] at hc
      exact beq_false_of_ne fun heq => h (heq ▸ hc)
    have hblank : ∀ c, isBlank c = true → (c == '=') = false := by
      intro c hc
      refine beq_false_of_ne ?_
      rintro rfl
      exact absurd hc (by decide)
    exact .assign fun hhead => absurd (ends_gap hgap hblank hends '=' hhead) (by decide)
  | closed h => exact .closed h
  | unclosed h =>
    simp [stop] at hstop
    omega
  | integer hne h hends =>
    exact .integer hne h (ends_gap hgap (fun c hc => (of_isBlank hc).2.1) (hrest ▸ hends))
  | identifier hne h hends =>
    exact .identifier hne h (ends_gap hgap (fun c hc => (of_isBlank hc).2.2) (hrest ▸ hends))
  | illegal hblank hmark hdigit hname => exact .illegal hblank hmark hdigit hname

end Token

/-! ### Tokens around a gap -/

namespace Cursor

open Token

variable {cs gap before after : List Char} {n place : Nat}

/-- What is read after blanks is read from behind them. -/
theorem tokens_append (hgap : ∀ c ∈ gap, isBlank c = true) (cs : List Char) (n : Nat) :
    (⟨gap ++ cs, n⟩ : Cursor).tokens = (⟨cs, n + gap.length⟩ : Cursor).tokens := by
  have hskip : (⟨gap ++ cs, n⟩ : Cursor).skip isBlank =
      (⟨cs, n + gap.length⟩ : Cursor).skip isBlank := by
    simp only [skip, List.dropWhile_append_of_pos hgap, List.takeWhile_append_of_pos hgap,
      List.length_append, Nat.add_assoc]
  have hnext : (⟨gap ++ cs, n⟩ : Cursor).next = (⟨cs, n + gap.length⟩ : Cursor).next :=
    congrArg read hskip
  rw [tokens.eq_1 ⟨gap ++ cs, n⟩, hnext, ← tokens.eq_1]

/-- Further on in a text the same characters give the same tokens, further on. -/
theorem tokens_later (cs : List Char) {n : Nat} (blanks : Nat) (h : place ≤ n) :
    (⟨cs, n + blanks⟩ : Cursor).tokens =
      (⟨cs, n⟩ : Cursor).tokens.map (Token.shift place blanks) := by
  induction hlength : cs.length using Nat.strong_induction_on generalizing cs n with
  | _ length ih =>
    rcases next_cases cs with hblank | ⟨gap, kind, text, written, rest, rfl, hgap, hlexeme⟩
    · rw [tokens_blank hblank, tokens_blank hblank, List.map_nil]
    · have hpos := hlexeme.length_pos
      have hshorter : rest.length < length := by
        rw [← hlength, List.length_append, List.length_append]
        omega
      have hrest := ih _ hshorter rest (n := n + gap.length + written.length) (by omega) rfl
      have hcolumn : place < n + gap.length + 1 := by omega
      have hfirst : n + blanks + gap.length = n + gap.length + blanks := by omega
      have hnext : n + gap.length + blanks + written.length =
          n + gap.length + written.length + blanks := by omega
      rw [tokens_lexeme hgap hlexeme, tokens_lexeme hgap hlexeme, List.map_cons, ← hrest,
        Token.shift, if_pos (Or.inr hcolumn), hfirst, hnext, Nat.add_right_comm _ blanks 1]

/-- A text that is taken apart in two ways, where the second cut of one is before the cut of the
other. -/
theorem exists_between {start written rest : List Char}
    (hsplit : before ++ after = start ++ (written ++ rest))
    (hlength : start.length + written.length ≤ before.length) :
    ∃ more, before = start ++ (written ++ more) ∧ rest = more ++ after := by
  rw [← List.append_assoc] at hsplit
  obtain ⟨more, rfl⟩ : start ++ written <+: before := by
    refine List.prefix_of_prefix_length_le ?_ (List.prefix_append before after) ?_
    · rw [hsplit]
      exact List.prefix_append _ rest
    · rwa [List.length_append]
  rw [List.append_assoc (start ++ written), List.append_cancel_left_eq] at hsplit
  exact ⟨more, List.append_assoc _ _ _, hsplit.symm⟩

/-- Behind a place with nothing but blanks before it are all tokens. -/
theorem tokens_gap_of_blank (hgap : ∀ c ∈ gap, isBlank c = true)
    (hbefore : ∀ c ∈ before, isBlank c = true) (after : List Char) (n : Nat) :
    (⟨before ++ (gap ++ after), n⟩ : Cursor).tokens =
      (⟨before ++ after, n⟩ : Cursor).tokens.map
        (Token.shift (n + before.length) gap.length) := by
  rw [tokens_append hbefore, tokens_append hbefore, tokens_append hgap,
    tokens_later after gap.length (Nat.le_refl _)]

/-- Blanks put in at a place within no token move the tokens behind it. -/
theorem tokens_gap (hgap : ∀ c ∈ gap, isBlank c = true) (before after : List Char) {n : Nat}
    (h : ∀ t ∈ (⟨before ++ after, n⟩ : Cursor).tokens,
      t.stop ≤ n + before.length ∨ n + before.length < t.column) :
    (⟨before ++ (gap ++ after), n⟩ : Cursor).tokens =
      (⟨before ++ after, n⟩ : Cursor).tokens.map
        (Token.shift (n + before.length) gap.length) := by
  induction hlength : before.length using Nat.strong_induction_on generalizing before n with
  | _ length ih =>
    subst hlength
    rcases next_cases (before ++ after) with
      hblank | ⟨start, kind, text, written, rest, hsplit, hstart, hlexeme⟩
    · exact tokens_gap_of_blank hgap (fun c hc => hblank c (List.mem_append_left _ hc)) after n
    · rcases Nat.lt_or_ge start.length before.length with hlong | hshort
      · -- the first token is before the gap, and what follows it is read by induction
        rw [hsplit, tokens_lexeme hstart hlexeme, List.forall_mem_cons] at h
        obtain ⟨hfirst, hothers⟩ := h
        have hfits : (⟨kind, n + start.length + 1, text⟩ : Token).stop ≤ n + before.length :=
          hfirst.resolve_right (Nat.not_lt.2 (by simp only; omega))
        have htotal := congrArg List.length hsplit
        simp only [List.length_append] at htotal
        have hstop : (⟨kind, n + start.length + 1, text⟩ : Token).stop =
            n + start.length + written.length := hlexeme.stop_eq_of_le (by omega)
        have hpos := hlexeme.length_pos
        obtain ⟨more, rfl, rfl⟩ := exists_between hsplit (by omega)
        have hshorter : more.length < (start ++ (written ++ more)).length := by
          simp only [List.length_append]
          omega
        have hplace : n + (start ++ (written ++ more)).length =
            n + start.length + written.length + more.length := by
          simp only [List.length_append]
          omega
        have hstays : ¬ n + start.length + written.length + more.length < n + start.length + 1 := by
          omega
        rw [hplace] at hothers ⊢
        rw [hsplit, List.append_assoc, List.append_assoc,
          tokens_lexeme hstart (hlexeme.gapped hstop hgap), tokens_lexeme hstart hlexeme,
          List.map_cons, ← ih _ hshorter more hothers rfl, Token.shift,
          if_neg (not_or.2 ⟨hlexeme.ne_eof, hstays⟩)]
      · refine tokens_gap_of_blank hgap (fun c hc => hstart c ?_) after n
        have hprefix : before <+: start :=
          List.prefix_of_prefix_length_le (List.prefix_append before after)
            (hsplit ▸ List.prefix_append start _) hshort
        exact hprefix.mem hc

end Cursor

/-! ### Reading tokens that have moved -/

/-- An error at a token that has moved. -/
def ParseError.moved (f : Token → Token) : ParseError → ParseError
  | notText => notText
  | unexpected fault token => unexpected fault (f token)

namespace Token

/-- A change that moves tokens and leaves what they are and say. -/
structure Moves (f : Token → Token) : Prop where
  kind : ∀ t, (f t).kind = t.kind
  text : ∀ t, (f t).text = t.text

theorem moves_shift (place blanks : Nat) : Moves (shift place blanks) := by
  constructor
  all_goals
    intro t
    unfold shift
    split <;> rfl

/-- A piece of tokens that have moved. -/
def Cut.moved (f : Token → Token) (cut : Cut) : Cut := ⟨cut.body.map f, f cut.stop⟩

variable {f : Token → Token}

/-- Tokens that have moved are cut at the same separators. -/
theorem cutAt_map (hf : Moves f) (separator : Kind → Bool) (ending : Token)
    (tokens : List Token) :
    cutAt separator (f ending) (tokens.map f) =
      ((cutAt separator ending tokens).1.moved f,
        (cutAt separator ending tokens).2.map (Cut.moved f)) := by
  induction tokens with
  | nil => rfl
  | cons token rest ih =>
    rw [List.map_cons, cutAt, ih, cutAt, hf.kind]
    cases separator token.kind <;> rfl

end Token

namespace Pipeline

open Token

section

variable {f : Token → Token} (hf : Moves f)

include hf

theorem stepOf_moved (token : Token) :
    stepOf (f token) = (stepOf token).mapError (ParseError.moved f) := by
  unfold stepOf
  rw [hf.kind, hf.text]
  by_cases hkind : token.kind = .integer
  · by_cases hsize : natOfDigits token.text.toList < UInt64.size
    · rw [if_pos hkind, if_pos hkind, if_pos hsize, if_pos hsize]
      rfl
    · rw [if_pos hkind, if_pos hkind, if_neg hsize, if_neg hsize]
      rfl
  · rw [if_neg hkind, if_neg hkind]
    rfl

mutual

theorem readAfterSegment_moved (stop : Token) (tokens : List Token) :
    readAfterSegment (f stop) (tokens.map f) =
      (readAfterSegment stop tokens).mapError (ParseError.moved f) := by
  cases tokens with
  | nil => rfl
  | cons token rest =>
    rw [List.map_cons, readAfterSegment, readAfterSegment, hf.kind]
    cases faultAfterSegment token.kind with
    | some fault => rfl
    | none => exact readAfterDot_moved stop rest

theorem readAfterDot_moved (stop : Token) (tokens : List Token) :
    readAfterDot (f stop) (tokens.map f) =
      (readAfterDot stop tokens).mapError (ParseError.moved f) := by
  cases tokens with
  | nil => rfl
  | cons token rest =>
    rw [List.map_cons, readAfterDot, readAfterDot, hf.kind]
    cases faultAfterDot token.kind with
    | some fault => rfl
    | none =>
      simp only [mapError_bind, stepOf_moved hf, readAfterSegment_moved stop rest]
      rfl

end

theorem readString_moved (text : String) (tokens : List Token) :
    readString text (tokens.map f) = (readString text tokens).mapError (ParseError.moved f) := by
  cases tokens with
  | nil => rfl
  | cons token rest =>
    rw [List.map_cons, readString, hf.kind]
    rfl

theorem readArgument_moved (cut : Cut) :
    readArgument (cut.moved f) = (readArgument cut).mapError (ParseError.moved f) := by
  obtain ⟨body, stop⟩ := cut
  cases body with
  | nil => rfl
  | cons token rest =>
    simp only [readArgument, Cut.moved, List.map_cons, hf.kind, hf.text]
    cases faultAtStart token.kind with
    | some fault => rfl
    | none =>
      by_cases hstring : token.kind = .string
      · simp only [if_pos hstring]
        exact readString_moved hf token.text rest
      · simp only [if_neg hstring, mapError_bind, stepOf_moved hf, readAfterSegment_moved hf]
        rfl

theorem readStage_moved (cut : Cut) :
    readStage (cut.moved f) = (readStage cut).mapError (ParseError.moved f) := by
  have hcut : cutAt Kind.isOperator (cut.moved f).stop (cut.moved f).body =
      ((cutAt Kind.isOperator cut.stop cut.body).1.moved f,
        (cutAt Kind.isOperator cut.stop cut.body).2.map (Cut.moved f)) :=
    cutAt_map hf _ cut.stop cut.body
  rw [readStage, hcut, readStage]
  obtain ⟨left, _ | ⟨right, more⟩⟩ := cutAt Kind.isOperator cut.stop cut.body
  · simp only [List.map_nil, mapError_bind, readArgument_moved hf]
    rfl
  · have hmark : (left.moved f).stop.kind = left.stop.kind := hf.kind left.stop
    simp only [List.map_cons, mapError_bind, readArgument_moved hf, hmark]
    cases more <;> rfl

theorem mapM_readStage_moved (cuts : List Cut) :
    (cuts.map (Cut.moved f)).mapM readStage =
      (cuts.mapM readStage).mapError (ParseError.moved f) := by
  induction cuts with
  | nil => rfl
  | cons cut rest ih =>
    simp only [List.map_cons, List.mapM_cons, mapError_bind, readStage_moved hf, ih]
    rfl

/-- Tokens that have moved are read as before, up to the place of a fault. -/
theorem ofTokens_moved (ending : Token) (tokens : List Token) :
    ofTokens (f ending) (tokens.map f) =
      (ofTokens ending tokens).mapError (ParseError.moved f) := by
  unfold ofTokens
  rw [cutAt_map hf]
  simp only [mapError_bind, readStage_moved hf, mapM_readStage_moved hf]
  rfl

end

/-- Blanks that are put in at a place within no token, and not after a string that is not closed,
leave every token what it is and says, and move those at the place or after it, and the end, by
their number. Reading then gives the same pipeline, or the same fault at the token that was at fault
before. -/
theorem parse_insert_blanks (before gap after : String)
    (hgap : ∀ c ∈ gap.toList, isBlank c = true)
    (hplace : Token.IsBoundary (before ++ after) before.length) :
    Token.tokens (before ++ gap ++ after) =
        (Token.tokens (before ++ after)).map (Token.shift before.length gap.length) ∧
      Token.ending (before ++ gap ++ after) =
        (Token.ending (before ++ after)).shift before.length gap.length ∧
      parse (before ++ gap ++ after) =
        (parse (before ++ after)).mapError
          (ParseError.moved (Token.shift before.length gap.length)) := by
  have htokens : Token.tokens (before ++ gap ++ after) =
      (Token.tokens (before ++ after)).map (Token.shift before.length gap.length) := by
    have hlength : 0 + before.toList.length = before.length := by
      rw [String.length_toList, Nat.zero_add]
    have h := Cursor.tokens_gap hgap before.toList after.toList (n := 0) (by
      rw [hlength, ← String.toList_append]
      exact hplace)
    rwa [hlength, String.length_toList, ← String.toList_append, ← String.toList_append,
      ← String.toList_append, ← String.append_assoc] at h
  have hending : Token.ending (before ++ gap ++ after) =
      (Token.ending (before ++ after)).shift before.length gap.length := by
    rw [Token.ending_eq, Token.ending_eq, Token.shift, if_pos (Or.inl rfl)]
    simp only [String.length_append, Nat.add_right_comm]
  refine ⟨htokens, hending, ?_⟩
  rw [parse, htokens, hending]
  exact ofTokens_moved (moves_shift _ _) _ _

/-- A gap of two blanks between `==` and `=`: the fault is at the `=` as before, two columns on. -/
theorem parse_insert_blanks_marks :
    let text := "a==" ++ "=\"x y"
    let gapped := "a==" ++ "\u3000 " ++ "=\"x y"
    (∀ c ∈ "\u3000 ".toList, isBlank c = true) ∧ Token.IsBoundary text 3 ∧
      Token.tokens gapped =
        [⟨.identifier, 1, "a"⟩, ⟨.equal, 2, "=="⟩, ⟨.assign, 6, "="⟩, ⟨.string, 7, "x y"⟩] ∧
      parse text = .error (.unexpected .emptyArgument ⟨.assign, 4, "="⟩) ∧
      parse gapped = .error (.unexpected .emptyArgument ⟨.assign, 6, "="⟩) := by
  intro text gapped
  have hgap : ∀ c ∈ "\u3000 ".toList, isBlank c = true := List.all_eq_true.1 rfl
  have hplace : Token.IsBoundary text 3 := by decide +kernel
  have htext : parse text = .error (.unexpected .emptyArgument ⟨.assign, 4, "="⟩) := by
    decide +kernel
  obtain ⟨htokens, _, hparse⟩ := parse_insert_blanks "a==" "\u3000 " "=\"x y" hgap hplace
  refine ⟨hgap, hplace, htokens.trans (by decide +kernel), htext, hparse.trans ?_⟩
  rw [htext]
  decide +kernel

end Pipeline

end DocMatch
