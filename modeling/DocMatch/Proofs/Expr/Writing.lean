import DocMatch.Proofs.Expr.Acceptance
import DocMatch.Proofs.Expr.Lexeme
import DocMatch.Proofs.Number.Digits

/-!
Writing expressions. A pipeline is written without blanks, and each piece of it keeps its tokens
wherever it stands: names and numbers are followed by a mark or by nothing, and no argument begins
with the sign of equality, so nothing fuses with what comes after it.

    stages      a-b.0 == "x y"    |    c
    text        a-b.0=="x y"|c
    tokens      a-b . 0 == x y | c

What reading gives can be written in this way, and what is so written is read as itself.
-/

namespace DocMatch

/-! ### The text of a pipeline -/

/-- The text of an argument. -/
def Argument.text : Argument → String
  | literal l => l.text
  | path p => Path.text p

/-- The text of a stage; the operator of a stage without a right argument is not written. -/
def Stage.text (stage : Stage) : String :=
  match stage.right with
  | none => stage.left.text
  | some right => stage.left.text ++ stage.operator.symbol ++ right.text

/-- The text of a pipeline: its stages with pipes between them. -/
def Pipeline.text (p : Pipeline) : String := String.intercalate "|" (p.stages.map Stage.text)

/-! ### What can be written -/

/-- A position, or a name that is one token. -/
inductive Step.IsWritable : Step → Prop
  | index (i : UInt64) : IsWritable (.index i)
  | key {name : String} (hne : name.toList ≠ []) (h : ∀ c ∈ name.toList, isNameChar c = true) :
    IsWritable (.key name)

/-- A string without quotes inside, or a path with at least one step. -/
inductive Argument.IsWritable : Argument → Prop
  | string {s : String} (h : '"' ∉ s.toList) : IsWritable (.literal (.string s))
  | path {p : Path} (hne : p ≠ []) (h : ∀ step ∈ p, step.IsWritable) : IsWritable (.path p)

/-- A filter without a right argument, or any operator with one. -/
inductive Stage.IsWritable : Stage → Prop
  | bare {left : Argument} (h : left.IsWritable) : IsWritable ⟨.filter, left, none⟩
  | applied {operator : Operator} {left right : Argument} (hleft : left.IsWritable)
    (hright : right.IsWritable) : IsWritable ⟨operator, left, some right⟩

/-- Every stage can be written. -/
def Pipeline.IsWritable (p : Pipeline) : Prop := ∀ stage ∈ p.stages, stage.IsWritable

namespace Token

/-- A token that comes from a text. -/
def IsRead (token : Token) : Prop :=
  ∃ written rest, IsLexeme token.kind token.text written rest

theorem IsSegment.isWritable {token : Token} {step : Step} (h : IsSegment token step)
    (hread : token.IsRead) : step.IsWritable := by
  obtain ⟨written, rest, hlexeme⟩ := hread
  cases h with
  | name h =>
    rw [h] at hlexeme
    exact .key hlexeme.identifier_text.1 hlexeme.identifier_text.2
  | index => exact .index _

theorem IsPath.isWritable {tokens : List Token} {path : Path} (h : IsPath tokens path)
    (hread : ∀ t ∈ tokens, t.IsRead) : path ≠ [] ∧ ∀ step ∈ path, step.IsWritable := by
  induction h with
  | last h =>
    refine ⟨List.cons_ne_nil _ _, List.forall_mem_singleton.2 ?_⟩
    exact h.isWritable (List.forall_mem_singleton.1 hread)
  | dot h _ _ ih =>
    obtain ⟨hfirst, hrest⟩ := List.forall_mem_cons.1 hread
    refine ⟨List.cons_ne_nil _ _, List.forall_mem_cons.2 ⟨h.isWritable hfirst, ?_⟩⟩
    exact (ih (List.forall_mem_cons.1 hrest).2).2

theorem IsArgument.isWritable {tokens : List Token} {argument : Argument}
    (h : IsArgument tokens argument) (hread : ∀ t ∈ tokens, t.IsRead) : argument.IsWritable := by
  cases h with
  | string h =>
    obtain ⟨written, rest, hlexeme⟩ := List.forall_mem_singleton.1 hread
    rw [h] at hlexeme
    exact .string hlexeme.string_text
  | path h => exact .path (h.isWritable hread).1 (h.isWritable hread).2

theorem IsStage.isWritable {tokens : List Token} {stage : Stage} (h : IsStage tokens stage)
    (hread : ∀ t ∈ tokens, t.IsRead) : stage.IsWritable := by
  cases h with
  | bare h => exact .bare (h.isWritable hread)
  | applied hleft _ hright =>
    obtain ⟨hbefore, hafter⟩ := List.forall_mem_append.1 hread
    exact .applied (hleft.isWritable hbefore) (hright.isWritable (List.forall_mem_cons.1 hafter).2)

theorem IsExpression.isWritable {tokens : List Token} {stages : List Stage}
    (h : IsExpression tokens stages) (hread : ∀ t ∈ tokens, t.IsRead) :
    ∀ stage ∈ stages, stage.IsWritable := by
  induction h with
  | last h => exact List.forall_mem_singleton.2 (h.isWritable hread)
  | pipe h _ _ ih =>
    obtain ⟨hbefore, hafter⟩ := List.forall_mem_append.1 hread
    exact List.forall_mem_cons.2 ⟨h.isWritable hbefore, ih (List.forall_mem_cons.1 hafter).2⟩

end Token

/-- What reading gives can be written. -/
theorem Pipeline.isWritable_of_parse {text : String} {p : Pipeline} (h : parse text = .ok p) :
    p.IsWritable := by
  have hexpression := isExpression_of_readStages (ofTokens_eq_ok_iff.1 h)
  exact hexpression.isWritable fun t ht => Cursor.isLexeme_of_mem_tokens ht

/-! ### Writing and reading -/

/-- A name or a number ends here: nothing follows, or a mark. -/
def Stops (rest : List Char) : Prop := ∀ c ∈ rest.head?, isMark c = true

theorem Stops.ends_digit {rest : List Char} (h : Stops rest) : Ends isDigit rest :=
  fun c hc => (of_isMark (h c hc)).2.1

theorem Stops.ends_nameChar {rest : List Char} (h : Stops rest) : Ends isNameChar rest :=
  fun c hc => (of_isMark (h c hc)).2.2

theorem stops_nil : Stops [] := nofun

theorem stops_cons {c : Char} {rest : List Char} (h : isMark c = true) : Stops (c :: rest) := by
  rintro _ ⟨⟩
  exact h

namespace Cursor

open Token

variable {P Q R : List Token → Prop} {kind : Kind} {text : String} {a b rest : List Char}

/-- Characters that are read as something, wherever they stand, if `rest` follows them. -/
def Gives (P : List Token → Prop) (written rest : List Char) : Prop :=
  ∀ n, ∃ tokens m, Reads ⟨written ++ rest, n⟩ tokens ⟨rest, m⟩ ∧ P tokens

theorem gives_lexeme (h : IsLexeme kind text a rest) (hP : ∀ column, P [⟨kind, column, text⟩]) :
    Gives P a rest :=
  fun n => ⟨_, _, reads_lexeme h n, hP (n + 1)⟩

theorem Gives.imp (ha : Gives P a rest) (h : ∀ tokens, P tokens → Q tokens) : Gives Q a rest := by
  intro n
  obtain ⟨tokens, m, hreads, hP⟩ := ha n
  exact ⟨tokens, m, hreads, h tokens hP⟩

theorem Gives.append (ha : Gives P a (b ++ rest)) (hb : Gives Q b rest)
    (hR : ∀ before after, P before → Q after → R (before ++ after)) : Gives R (a ++ b) rest := by
  intro n
  obtain ⟨before, m, hbefore, hP⟩ := ha n
  obtain ⟨after, k, hafter, hQ⟩ := hb m
  refine ⟨before ++ after, k, ?_, hR before after hP hQ⟩
  rw [List.append_assoc]
  exact hbefore.trans hafter

theorem Gives.cons (ha : IsLexeme kind text a (b ++ rest)) (hb : Gives Q b rest)
    (hR : ∀ column after, Q after → R (⟨kind, column, text⟩ :: after)) : Gives R (a ++ b) rest := by
  refine (gives_lexeme ha fun column => ⟨column, rfl⟩).append hb ?_
    (P := fun before => ∃ column, before = [⟨kind, column, text⟩])
  rintro _ after ⟨column, rfl⟩ hQ
  exact hR column after hQ

end Cursor

open Token Cursor

section

variable {rest : List Char}

/-- A step that can be written is one lexeme, which does not begin with a mark. -/
theorem Step.IsWritable.exists_lexeme {step : Step} (h : step.IsWritable) (hrest : Stops rest) :
    ∃ kind text, IsLexeme kind text step.text.toList rest ∧
      ∀ column, IsSegment ⟨kind, column, text⟩ step := by
  cases h with
  | index i =>
    refine ⟨.integer, String.ofList (Layout.natDigits i.toNat), ?_, fun column => .index rfl ?_⟩
    · rw [Step.text, String.toList_ofList]
      exact .integer (Layout.natDigits_ne_nil _) (fun _ => Layout.isDigit_of_mem_natDigits)
        hrest.ends_digit
    · rw [← Pipeline.natOfDigits_eq_decimal, String.toList_ofList, Layout.natOfDigits_natDigits]
  | @key name hne h =>
    refine ⟨.identifier, name, ?_, fun column => .name rfl⟩
    have hlexeme : IsLexeme .identifier (String.ofList name.toList) name.toList rest :=
      .identifier hne h hrest.ends_nameChar
    rwa [String.ofList_toList] at hlexeme

/-- A step does not begin with a mark. -/
theorem Step.IsWritable.head {step : Step} (h : step.IsWritable) :
    ∃ c cs, step.text.toList = c :: cs ∧ isMark c = false := by
  cases h with
  | index i =>
    obtain ⟨c, cs, hcons, hc⟩ := Layout.natDigits_head i.toNat
    exact ⟨c, cs, by rw [Step.text, String.toList_ofList, hcons], (of_isDigit hc).2.1⟩
  | key hne h =>
    obtain ⟨c, cs, hcons⟩ := List.exists_cons_of_ne_nil hne
    exact ⟨c, cs, hcons, (of_isNameChar (h c (hcons ▸ List.mem_cons_self))).2.1⟩

/-- Texts with something between them begin with the first text. -/
theorem toList_intercalate_cons_cons (mark first next : String) (more : List String) :
    (String.intercalate mark (first :: next :: more)).toList =
      first.toList ++ (mark.toList ++ (String.intercalate mark (next :: more)).toList) := by
  rw [String.intercalate_cons_cons, String.toList_append, String.toList_append, List.append_assoc]

theorem Path.text_singleton (step : Step) : Path.text [step] = step.text :=
  String.intercalate_singleton

theorem Path.toList_text_cons_cons (step next : Step) (path : Path) :
    (Path.text (step :: next :: path)).toList =
      step.text.toList ++ (Kind.dot.name.toList ++ (Path.text (next :: path)).toList) :=
  toList_intercalate_cons_cons "." step.text next.text (path.map Step.text)

theorem Path.gives {path : Path} (hne : path ≠ []) (h : ∀ step ∈ path, step.IsWritable)
    (hrest : Stops rest) : Gives (IsPath · path) (Path.text path).toList rest := by
  induction path with
  | nil => exact absurd rfl hne
  | cons step path ih =>
    obtain ⟨hstep, hpath⟩ := List.forall_mem_cons.1 h
    cases path with
    | nil =>
      obtain ⟨kind, text, hlexeme, hsegment⟩ := hstep.exists_lexeme hrest
      rw [Path.text_singleton]
      exact gives_lexeme hlexeme fun column => .last (hsegment column)
    | cons next path =>
      have hmore := ih (List.cons_ne_nil _ _) hpath
      have htail : Gives (IsTail · (next :: path))
          (Kind.dot.name.toList ++ (Path.text (next :: path)).toList) rest :=
        .cons (.mark (by decide)) hmore fun _ after h => Or.inr ⟨_, after, rfl, rfl, h⟩
      have hstops : Stops (Kind.dot.name.toList ++ (Path.text (next :: path)).toList ++ rest) :=
        stops_cons rfl
      obtain ⟨kind, text, hlexeme, hsegment⟩ := hstep.exists_lexeme hstops
      rw [Path.toList_text_cons_cons]
      exact .cons hlexeme htail fun column _ h =>
        isPath_cons_iff.2 ⟨step, _, rfl, hsegment column, h⟩

theorem Argument.IsWritable.gives {argument : Argument} (h : argument.IsWritable)
    (hrest : Stops rest) : Gives (IsArgument · argument) argument.text.toList rest := by
  cases h with
  | @string s h =>
    have hlexeme : IsLexeme .string (String.ofList s.toList) ('"' :: (s.toList ++ ['"'])) rest :=
      .closed h
    rw [Argument.text, Literal.text, String.toList_ofList]
    rw [String.ofList_toList] at hlexeme
    exact gives_lexeme hlexeme fun column => .string rfl
  | path hne h => exact (Path.gives hne h hrest).imp fun _ hpath => .path hpath

/-- No argument begins with the sign of equality. -/
theorem Argument.IsWritable.head {argument : Argument} (h : argument.IsWritable) :
    ∃ c cs, argument.text.toList = c :: cs ∧ c ≠ '=' := by
  cases h with
  | @string s h =>
    refine ⟨'"', s.toList ++ ['"'], ?_, by decide⟩
    rw [Argument.text, Literal.text, String.toList_ofList, List.cons_append]
  | @path path hne h =>
    obtain ⟨step, more, rfl⟩ := List.exists_cons_of_ne_nil hne
    obtain ⟨c, cs, hcons, hmark⟩ := (h step List.mem_cons_self).head
    have hc : c ≠ '=' := by
      rintro rfl
      cases hmark
    cases more with
    | nil => exact ⟨c, cs, by rw [Argument.text, Path.text_singleton, hcons], hc⟩
    | cons next more =>
      refine ⟨c, cs ++ (Kind.dot.name.toList ++ (Path.text (next :: more)).toList), ?_, hc⟩
      rw [Argument.text, Path.toList_text_cons_cons, hcons, List.cons_append]

/-- The mark of an operator is one lexeme, unless it would be lengthened. -/
theorem Operator.exists_lexeme (operator : Operator) (h : rest.head? ≠ some '=') :
    ∃ kind text, IsLexeme kind text operator.symbol.toList rest ∧
      ∀ column, IsMark ⟨kind, column, text⟩ operator := by
  cases operator with
  | filter => exact ⟨.equal, _, .mark (by decide), fun _ => .filter rfl⟩
  | replace => exact ⟨.assign, _, .assign h, fun _ => .replace rfl⟩
  | merge => exact ⟨.merge, _, .mark (by decide), fun _ => .merge rfl⟩

theorem Operator.stops (operator : Operator) : Stops (operator.symbol.toList ++ rest) := by
  cases operator <;> exact stops_cons rfl

theorem Stage.IsWritable.gives {stage : Stage} (h : stage.IsWritable) (hrest : Stops rest) :
    Gives (IsStage · stage) stage.text.toList rest := by
  cases h with
  | bare h => exact (h.gives hrest).imp fun _ hargument => .bare hargument
  | @applied operator left right hleft hright =>
    -- `=` before an argument is not lengthened to `==`
    have hassign : (right.text.toList ++ rest).head? ≠ some '=' := by
      obtain ⟨c, cs, hcons, hc⟩ := hright.head
      rw [hcons]
      exact fun h => hc (Option.some.inj h)
    obtain ⟨kind, text, hlexeme, hmark⟩ := operator.exists_lexeme hassign
    have hafter : Gives (fun ts => ∃ mark after, ts = mark :: after ∧ IsMark mark operator ∧
        IsArgument after right) (operator.symbol.toList ++ right.text.toList) rest :=
      .cons hlexeme (hright.gives hrest) fun column after h => ⟨_, after, rfl, hmark column, h⟩
    rw [Stage.text, String.toList_append, String.toList_append, List.append_assoc]
    refine .append (hleft.gives ?_) hafter ?_
    · rw [List.append_assoc]
      exact operator.stops
    · rintro before _ h ⟨mark, after, rfl, hmark, hafter⟩
      exact .applied h hmark hafter

/-- The stages of a pipeline reach to the end of the text. -/
theorem gives_stages {stages : List Stage} (hne : stages ≠ [])
    (h : ∀ stage ∈ stages, stage.IsWritable) :
    Gives (IsExpression · stages) (String.intercalate "|" (stages.map Stage.text)).toList [] := by
  induction stages with
  | nil => exact absurd rfl hne
  | cons stage stages ih =>
    obtain ⟨hstage, hstages⟩ := List.forall_mem_cons.1 h
    cases stages with
    | nil =>
      rw [List.map_singleton, String.intercalate_singleton]
      exact (hstage.gives stops_nil).imp fun _ hstage => .last hstage
    | cons next stages =>
      have hmore := ih (List.cons_ne_nil _ _) hstages
      have htail : Gives (fun ts => ∃ pipe after, ts = pipe :: after ∧ pipe.kind = .pipe ∧
          IsExpression after (next :: stages))
          (Kind.pipe.name.toList ++
            (String.intercalate "|" ((next :: stages).map Stage.text)).toList) [] :=
        .cons (.mark (by decide)) hmore fun _ after h => ⟨_, after, rfl, rfl, h⟩
      rw [List.map_cons, List.map_cons, toList_intercalate_cons_cons]
      refine .append (hstage.gives (stops_cons rfl)) htail ?_
      rintro before _ h ⟨pipe, after, rfl, hpipe, hafter⟩
      exact .pipe h hpipe hafter

end

namespace Pipeline

/-- What is written is read as itself. -/
theorem parse_text_of_isWritable {p : Pipeline} (h : p.IsWritable) : parse p.text = .ok p := by
  obtain ⟨tokens, m, hreads, hexpression⟩ := gives_stages (List.cons_ne_nil _ _) h 0
  have htokens : Token.tokens p.text = tokens := by
    have h := hreads.tokens
    rwa [List.append_nil, tokens_nil, List.append_nil] at h
  rw [parse, htokens]
  exact ofTokens_eq_ok_iff.2 (readStages_of_isExpression hexpression)

/-- What can be written is what reading gives. -/
theorem exists_parse_iff {p : Pipeline} : (∃ text, parse text = .ok p) ↔ p.IsWritable :=
  ⟨fun ⟨_, h⟩ => isWritable_of_parse h, fun h => ⟨p.text, parse_text_of_isWritable h⟩⟩

/-- Writing what was read, and reading it again, changes nothing. -/
theorem parse_text_of_parse {text : String} {p : Pipeline} (h : parse text = .ok p) :
    parse p.text = .ok p :=
  parse_text_of_isWritable (exists_parse_iff.1 ⟨text, h⟩)

/-- The last string is closed, blanks go, and names and positions stay. -/
theorem parse_text_unclosed :
    let text := " é-ß . 18446744073709551615+\"=|\" | -== \"x y"
    let p : Pipeline := ⟨⟨.merge, .path [.key "é-ß", .index 18446744073709551615],
      some (.literal (.string "=|"))⟩,
      [⟨.filter, .path [.key "-"], some (.literal (.string "x y"))⟩]⟩
    parse text = .ok p ∧ p.text = "é-ß.18446744073709551615+\"=|\"|-==\"x y\"" ∧
      parse p.text = .ok p := by
  have h : parse " é-ß . 18446744073709551615+\"=|\" | -== \"x y" =
      .ok ⟨⟨.merge, .path [.key "é-ß", .index 18446744073709551615],
        some (.literal (.string "=|"))⟩,
        [⟨.filter, .path [.key "-"], some (.literal (.string "x y"))⟩]⟩ := by
    decide +kernel
  exact ⟨h, by decide +kernel, parse_text_of_parse h⟩

end Pipeline

end DocMatch
