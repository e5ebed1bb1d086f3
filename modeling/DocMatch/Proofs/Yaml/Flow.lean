import DocMatch.Proofs.Yaml.Scanning

/-!
The tokens of a JSON text. A script says by itself which tokens it is: arrays and objects are flow
collections, words are plain scalars and string literals are quoted ones, and each name of an object
is a key. A scanner that comes to a portable script reads its tokens.

    [1, {"a": true}]      [   1   ,   {   key   "a"   value   true   }   ]
-/

namespace DocMatch

namespace Json

/-! ### The tokens of a script -/

mutual

/-- The tokens of a script. -/
def Script.tokens : Script → List Yaml.Token
  | .word _ w => [.scalar w.chars .plain]
  | .string _ body => [.scalar body.text .marked]
  | .emptyArray _ _ => [.flowSequenceStart, .flowSequenceEnd]
  | .array _ items => .flowSequenceStart :: items.tokens
  | .emptyObject _ _ => [.flowMappingStart, .flowMappingEnd]
  | .object _ members => .flowMappingStart :: members.tokens

/-- The tokens of items, up to the closing bracket. -/
def Items.tokens : Items → List Yaml.Token
  | .last item _ => item.tokens ++ [.flowSequenceEnd]
  | .next item _ rest => item.tokens ++ .flowEntry :: rest.tokens

/-- The tokens of members, up to the closing brace. -/
def Members.tokens : Members → List Yaml.Token
  | .last _ name _ part _ =>
    .key :: .scalar name.text .marked :: .value :: (part.tokens ++ [.flowMappingEnd])
  | .next _ name _ part _ rest =>
    .key :: .scalar name.text .marked :: .value :: (part.tokens ++ .flowEntry :: rest.tokens)

end

/-- Whether a script is a word. -/
def Script.isWord : Script → Bool
  | .word _ _ => true
  | _ => false

/-! ### Portable pieces -/

/-- Pieces that YAML reads as JSON does, with each name near its colon. -/
structure ArePortable (ps : List (List Char × Piece)) : Prop where
  each : ps.all (·.2.isPortable) = true
  near : ps.IsChain (staysNear · · = true)

namespace ArePortable

variable {p q : List Char × Piece} {ps qs : List (List Char × Piece)}

theorem left (h : ArePortable (ps ++ qs)) : ArePortable ps :=
  ⟨(Bool.and_eq_true_iff.1 (List.all_append ▸ h.each)).1, h.near.left_of_append⟩

theorem right (h : ArePortable (ps ++ qs)) : ArePortable qs :=
  ⟨(Bool.and_eq_true_iff.1 (List.all_append ▸ h.each)).2, h.near.right_of_append⟩

theorem head (h : ArePortable (p :: ps)) : p.2.isPortable = true :=
  (Bool.and_eq_true_iff.1 (List.all_cons ▸ h.each)).1

theorem tail (h : ArePortable (p :: ps)) : ArePortable ps :=
  ⟨(Bool.and_eq_true_iff.1 (List.all_cons ▸ h.each)).2, h.near.tail⟩

theorem staysNear (h : ArePortable (p :: q :: ps)) : staysNear p q = true :=
  (List.isChain_cons_cons.1 h.near).1

end ArePortable

end Json

namespace Yaml.Scanner

open Json

variable {s : Scanner} {tokens : List Token} {after : Blanks} {rest : List Char}

/-! ### Scripts are scanned -/

/-- Inside of brackets a word can end at a mark between values. -/
theorem endsPlain_mark {depth : Nat} {c : Char} (hc : isFlowMark c = true) (hdepth : 0 < depth)
    (rest : List Char) : EndsPlain (decide (0 < depth)) (c :: rest) := by
  rintro _ ⟨⟩
  simp [hc, hdepth]

theorem Stands.mayPass_head {gap : Blanks} {p : Piece} {ps : List (List Char × Piece)}
    {depth : Nat} (h : s.Stands depth tokens rest)
    (htabs : 0 < depth ∨ ∀ q ∈ ((gap.chars, p) :: ps).head?, '\t' ∉ q.1) : s.MayPass gap.chars := by
  rcases htabs with hdepth | htabs
  · exact .inl (by simp [h.inFlow, hdepth])
  · exact .inr (.inl (htabs _ rfl))

/-- Past a value, the blanks after it may be left. -/
theorem exists_after {s' : Scanner} {depth : Nat} {p : Prop}
    (h : s'.Stands depth tokens rest ∨ p ∧ s'.keyAllowed = false ∧
      s'.Stands depth tokens (after.chars ++ rest)) :
    ∃ gap : Blanks, s'.Stands depth tokens (gap.chars ++ rest) := by
  rcases h with h | ⟨-, -, h⟩
  · exact ⟨⟨[], List.forall_mem_nil _⟩, h⟩
  · exact ⟨after, h⟩

mutual

/-- A value is scanned. -/
theorem exists_scan (x : Script) {s : Scanner} {depth : Nat} {tokens : List Token} {after : Blanks}
    {rest : List Char} (hx : ArePortable x.pieces)
    (h : s.Stands depth tokens (x.chars ++ (after.chars ++ rest)))
    (hrest : EndsPlain (decide (0 < depth)) rest)
    (htabs : 0 < depth ∨ ∀ p ∈ x.pieces.head?, '\t' ∉ p.1) :
    ∃ s', s.LeadsTo s' ∧ (s'.Stands depth (x.tokens.reverse ++ tokens) rest ∨
      x.isWord = false ∧ s'.keyAllowed = false ∧
        s'.Stands depth (x.tokens.reverse ++ tokens) (after.chars ++ rest)) := by
  cases x with
  | word gap w =>
    have hpass := h.mayPass_head htabs
    rw [Script.chars_word, List.append_assoc] at h
    obtain ⟨s', hto, hs'⟩ := h.exists_word hrest hpass
    exact ⟨s', hto, .inl hs'⟩
  | string gap body =>
    have hpass := h.mayPass_head htabs
    have hbody := Body.isPortable hx.head
    simp only [Script.chars_string, List.append_assoc, List.cons_append, List.nil_append] at h
    obtain ⟨s', _, hto, hs', hkey, -⟩ := h.exists_literal hbody hpass
    exact ⟨s', hto, .inr ⟨rfl, hkey, hs'⟩⟩
  | emptyArray gap inner =>
    have hpass := h.mayPass_head htabs
    simp only [Script.chars_emptyArray, List.append_assoc, List.cons_append, List.nil_append] at h
    obtain ⟨s₁, hto, h₁, -⟩ := h.exists_open rfl hpass
    obtain ⟨s', hto', hs', hkey⟩ := h₁.exists_close rfl
    exact ⟨s', hto.trans hto', .inr ⟨rfl, hkey, hs'⟩⟩
  | array gap items =>
    have hpass := h.mayPass_head htabs
    simp only [Script.chars_array, List.append_assoc, List.cons_append] at h
    obtain ⟨s₁, hto, h₁, -⟩ := h.exists_open rfl hpass
    obtain ⟨s', hto', hs', hkey⟩ := exists_scanItems items hx.tail h₁
    refine ⟨s', hto.trans hto', .inr ⟨rfl, hkey, ?_⟩⟩
    simpa [Script.tokens] using hs'
  | emptyObject gap inner =>
    have hpass := h.mayPass_head htabs
    simp only [Script.chars_emptyObject, List.append_assoc, List.cons_append, List.nil_append] at h
    obtain ⟨s₁, hto, h₁, -⟩ := h.exists_open rfl hpass
    obtain ⟨s', hto', hs', hkey⟩ := h₁.exists_close rfl
    exact ⟨s', hto.trans hto', .inr ⟨rfl, hkey, hs'⟩⟩
  | object gap members =>
    have hpass := h.mayPass_head htabs
    simp only [Script.chars_object, List.append_assoc, List.cons_append] at h
    obtain ⟨s₁, hto, h₁, hkey₁⟩ := h.exists_open rfl hpass
    obtain ⟨s', hto', hs', hkey⟩ := exists_scanMembers members hx.tail hkey₁ h₁
    refine ⟨s', hto.trans hto', .inr ⟨rfl, hkey, ?_⟩⟩
    simpa [Script.tokens] using hs'

/-- Items are scanned, up to and past the closing bracket. -/
theorem exists_scanItems (xs : Items) {s : Scanner} {depth : Nat} {tokens : List Token}
    {rest : List Char} (hxs : ArePortable xs.pieces)
    (h : s.Stands (depth + 1) tokens (xs.chars ++ rest)) :
    ∃ s', s.LeadsTo s' ∧ s'.Stands depth (xs.tokens.reverse ++ tokens) rest ∧
      s'.keyAllowed = false := by
  cases xs with
  | last item after =>
    simp only [Items.chars_last, List.append_assoc, List.cons_append, List.nil_append] at h
    obtain ⟨s₁, hto, h₁⟩ := exists_scan item hxs.left h
      (endsPlain_mark rfl (Nat.succ_pos depth) rest) (.inl (Nat.succ_pos depth))
    obtain ⟨gap, h₁⟩ := exists_after h₁
    obtain ⟨s', hto', hs', hkey⟩ := h₁.exists_close rfl
    refine ⟨s', hto.trans hto', ?_, hkey⟩
    simpa [Items.tokens] using hs'
  | next item after more =>
    simp only [Items.chars_next, List.append_assoc, List.cons_append] at h
    obtain ⟨s₁, hto, h₁⟩ := exists_scan item hxs.left h
      (endsPlain_mark rfl (Nat.succ_pos depth) _) (.inl (Nat.succ_pos depth))
    obtain ⟨gap, h₁⟩ := exists_after h₁
    obtain ⟨s₂, hto₂, h₂, -⟩ := h₁.exists_comma
    obtain ⟨s', hto', hs', hkey⟩ := exists_scanItems more hxs.right.tail h₂
    refine ⟨s', (hto.trans hto₂).trans hto', ?_, hkey⟩
    simpa [Items.tokens] using hs'

/-- Members are scanned, up to and past the closing brace. -/
theorem exists_scanMembers (ms : Members) {s : Scanner} {depth : Nat} {tokens : List Token}
    {rest : List Char} (hms : ArePortable ms.pieces) (hkey : s.keyAllowed = true)
    (h : s.Stands (depth + 1) tokens (ms.chars ++ rest)) :
    ∃ s', s.LeadsTo s' ∧ s'.Stands depth (ms.tokens.reverse ++ tokens) rest ∧
      s'.keyAllowed = false := by
  cases ms with
  | last before name colon part after =>
    simp only [Members.chars_last, List.append_assoc, List.cons_append, List.nil_append] at h
    obtain ⟨s₁, hto, h₁⟩ := h.exists_name (Body.isPortable hms.head) hkey hms.staysNear
    obtain ⟨s₂, hto₂, h₂⟩ := exists_scan part hms.tail.tail.left h₁
      (endsPlain_mark rfl (Nat.succ_pos depth) rest) (.inl (Nat.succ_pos depth))
    obtain ⟨gap, h₂⟩ := exists_after h₂
    obtain ⟨s', hto', hs', hkey'⟩ := h₂.exists_close rfl
    refine ⟨s', (hto.trans hto₂).trans hto', ?_, hkey'⟩
    simpa [Members.tokens] using hs'
  | next before name colon part after more =>
    simp only [Members.chars_next, List.append_assoc, List.cons_append] at h
    obtain ⟨s₁, hto, h₁⟩ := h.exists_name (Body.isPortable hms.head) hkey hms.staysNear
    obtain ⟨s₂, hto₂, h₂⟩ := exists_scan part hms.tail.tail.left h₁
      (endsPlain_mark rfl (Nat.succ_pos depth) _) (.inl (Nat.succ_pos depth))
    obtain ⟨gap, h₂⟩ := exists_after h₂
    obtain ⟨s₃, hto₃, h₃, hkey₃⟩ := h₂.exists_comma
    obtain ⟨s', hto', hs', hkey'⟩ := exists_scanMembers more hms.tail.tail.right.tail hkey₃ h₃
    refine ⟨s', ((hto.trans hto₂).trans hto₃).trans hto', ?_, hkey'⟩
    simpa [Members.tokens] using hs'

end

/-- A scanner that comes to the end of the text has read its tokens. -/
theorem LeadsTo.readAll_end {s s' : Scanner} {tokens : List Token} {last : Blanks}
    (h : s.LeadsTo s') (hs' : s'.Stands 0 tokens last.chars) (htabs : s'.MayPass last.chars) :
    ∃ s'', readAll (s.reader.rest.length + 1) s = .ok s'' ∧ s''.tokens = tokens := by
  obtain ⟨n, hn, hread⟩ := h
  obtain ⟨s'', hend, htokens⟩ := Scanner.readAll_end hs'.toIsFree last.isSpace hs'.rest htabs
    (s.reader.rest.length - n)
  have hbound : s.reader.rest.length + 1 = n + (s.reader.rest.length - n + 1) := by omega
  refine ⟨s'', ?_, htokens.trans hs'.tokens⟩
  rw [hbound, hread, hend]

end Yaml.Scanner

/-! ### The tokens of a text -/

namespace Json

/-- Items end with a bracket. -/
theorem Items.exists_last (xs : Items) : ∃ ps gap, xs.pieces = ps ++ [(gap, .mark ']')] := by
  cases xs with
  | last item after => exact ⟨item.pieces, after.chars, rfl⟩
  | next item after more =>
    obtain ⟨ps, gap, hmore⟩ := more.exists_last
    exact ⟨item.pieces ++ (after.chars, .mark ',') :: ps, gap, by simp [Items.pieces, hmore]⟩

/-- Members end with a brace. -/
theorem Members.exists_last (ms : Members) : ∃ ps gap, ms.pieces = ps ++ [(gap, .mark '}')] := by
  cases ms with
  | last before name colon part after =>
    exact ⟨(before.chars, .literal name.chars) :: (colon.chars, .mark ':') :: part.pieces,
      after.chars, rfl⟩
  | next before name colon part after more =>
    obtain ⟨ps, gap, hmore⟩ := more.exists_last
    exact ⟨(before.chars, .literal name.chars) :: (colon.chars, .mark ':') ::
      (part.pieces ++ (after.chars, .mark ',') :: ps), gap, by simp [Members.pieces, hmore]⟩

/-- Only a word ends with a word. -/
theorem Script.isWord_of_getLast? (x : Script)
    (h : x.pieces.getLast?.any (·.2.isWord) = true) : x.isWord = true := by
  cases x with
  | word gap w => rfl
  | string gap body => cases h
  | emptyArray gap inner => cases h
  | array gap items =>
    obtain ⟨ps, gap', hitems⟩ := items.exists_last
    rw [Script.pieces, hitems, ← List.cons_append, List.getLast?_concat] at h
    cases h
  | emptyObject gap inner => cases h
  | object gap members =>
    obtain ⟨ps, gap', hmembers⟩ := members.exists_last
    rw [Script.pieces, hmembers, ← List.cons_append, List.getLast?_concat] at h
    cases h

/-- A script begins with blanks and a character that starts a token. -/
theorem Script.exists_head (x : Script) : ∃ (gap : Blanks) (c : Char) (cs : List Char),
    x.chars = gap.chars ++ c :: cs ∧ Yaml.Scanner.startsToken c = true := by
  cases x with
  | word gap w =>
    obtain ⟨c, cs, hchars⟩ := List.exists_cons_of_ne_nil w.chars_ne_nil
    refine ⟨gap, c, cs, by rw [chars_word, hchars], ?_⟩
    exact List.all_eq_true.1 (rfl : wordChars.all Yaml.Scanner.startsToken = true) c
      (w.mem_wordChars (hchars ▸ List.mem_cons_self))
  | string gap body => exact ⟨gap, '"', _, chars_string gap body, rfl⟩
  | emptyArray gap inner => exact ⟨gap, '[', _, chars_emptyArray gap inner, rfl⟩
  | array gap items => exact ⟨gap, '[', _, chars_array gap items, rfl⟩
  | emptyObject gap inner => exact ⟨gap, '{', _, chars_emptyObject gap inner, rfl⟩
  | object gap members => exact ⟨gap, '{', _, chars_object gap members, rfl⟩

theorem Script.head?_ne_mark (x : Script) (rest : List Char) :
    ((x.chars ++ rest).head? == some '\uFEFF') = false := by
  obtain ⟨gap, c, cs, hchars, hc⟩ := x.exists_head
  rw [hchars]
  cases hgap : gap.chars with
  | nil =>
    have hne := (Yaml.Scanner.of_startsToken hc).2.2.2
    simpa using hne
  | cons b bs =>
    have hb := gap.isSpace b (hgap ▸ List.mem_cons_self)
    have hne : b ≠ '\uFEFF' := by rintro rfl; cases hb
    simpa using hne

end Json

open Json

/-- A portable text has the tokens of its script. -/
theorem Yaml.Token.ofText_of_script {text : String} {x : Script} {last : Blanks}
    (htext : text.toList = x.chars ++ last.chars) (h : IsPortable text) :
    Token.ofText text.toList = .ok x.tokens := by
  obtain ⟨hpieces, hlast⟩ := piecesOf_eq htext
  have hx : ArePortable x.pieces := ⟨hpieces ▸ h.pieces, hpieces ▸ h.near⟩
  have hfirst : 0 < 0 ∨ ∀ p ∈ x.pieces.head?, '\t' ∉ p.1 := by
    have hfirst := h.first
    rw [hpieces, Option.all_eq_true] at hfirst
    exact .inr fun p hp => by simpa using hfirst p hp
  have hstart : Scanner.Stands { reader := Reader.start text.toList } 0 []
      (x.chars ++ (last.chars ++ [])) := by
    refine ⟨⟨rfl, by simp, by simp⟩, rfl, rfl, ?_⟩
    rw [List.append_nil]
    exact htext
  obtain ⟨s, hto, hs⟩ := Scanner.exists_scan x hx hstart (by simp [EndsPlain]) hfirst
  obtain ⟨left, hs, htabs⟩ : ∃ left : Blanks, s.Stands 0 (x.tokens.reverse ++ []) left.chars ∧
      s.MayPass left.chars := by
    rcases hs with hs | ⟨hword, hkey, hs⟩
    · exact ⟨⟨[], List.forall_mem_nil _⟩, hs, .inr (.inl List.not_mem_nil)⟩
    · rw [List.append_nil last.chars] at hs
      refine ⟨last, hs, .inr (.inr ⟨hkey, ?_⟩)⟩
      have hends := h.last
      rw [hpieces, hlast] at hends
      refine fun htab => hends.elim (fun hlastWord => ?_) fun hnone => ?_
      · rw [x.isWord_of_getLast? hlastWord] at hword
        cases hword
      · simp [htab] at hnone
  obtain ⟨s', hread, htokens⟩ := hto.readAll_end hs htabs
  have hmark : (text.toList.head? == some '\uFEFF') = false := by
    rw [htext, x.head?_ne_mark]
  have hreadAll : Scanner.readAll (text.toList.length + 1)
      { reader := Reader.start text.toList } = .ok s' := hread
  rw [Token.ofText, h.allowed, hmark]
  simp [hreadAll, htokens, bind, Except.bind, pure, Except.pure]

end DocMatch
