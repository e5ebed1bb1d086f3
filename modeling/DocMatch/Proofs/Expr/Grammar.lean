import DocMatch.Expr.Reading
import Mathlib.Data.Nat.Digits.Defs

/-!
The grammar of expressions, as a relation between tokens and what they write.

    expression  =  stage ("|" stage)*
    stage       =  argument (("==" | "=" | "+") argument)?
    argument    =  STRING  |  path
    path        =  segment ("." segment)*
    segment     =  IDENT  |  INT

    IDENT . INT == STRING | IDENT
    └─path────┘    └────┘   └───┘          a filter with a literal, then one without
    └─stage─────────────┘   └───┘

What separates arguments or stages never stands within one of them.
-/

namespace DocMatch

/-- The number that a text of decimal digits denotes. -/
def decimal (text : String) : Nat :=
  Nat.ofDigits 10 (text.toList.reverse.map fun c => c.toNat - '0'.toNat)

namespace Token

/-- A segment of a path: a name, or digits that denote a number of 64 bits. -/
inductive IsSegment : Token → Step → Prop
  | name {token : Token} (h : token.kind = .identifier) : IsSegment token (.key token.text)
  | index {token : Token} {i : UInt64} (h : token.kind = .integer)
    (hi : decimal token.text = i.toNat) : IsSegment token (.index i)

/-- Segments with dots between them. -/
inductive IsPath : List Token → Path → Prop
  | last {token : Token} {step : Step} (h : IsSegment token step) : IsPath [token] [step]
  | dot {token dot : Token} {step : Step} {rest : List Token} {path : Path}
    (h : IsSegment token step) (hdot : dot.kind = .dot) (hrest : IsPath rest path) :
    IsPath (token :: dot :: rest) (step :: path)

/-- A string or a path. -/
inductive IsArgument : List Token → Argument → Prop
  | string {token : Token} (h : token.kind = .string) :
    IsArgument [token] (.literal (.string token.text))
  | path {tokens : List Token} {path : Path} (h : IsPath tokens path) :
    IsArgument tokens (.path path)

/-- The mark of an operator. -/
inductive IsMark : Token → Operator → Prop
  | filter {token : Token} (h : token.kind = .equal) : IsMark token .filter
  | replace {token : Token} (h : token.kind = .assign) : IsMark token .replace
  | merge {token : Token} (h : token.kind = .merge) : IsMark token .merge

/-- An argument, which is filtered for, or two arguments with an operator between them. -/
inductive IsStage : List Token → Stage → Prop
  | bare {tokens : List Token} {left : Argument} (h : IsArgument tokens left) :
    IsStage tokens ⟨.filter, left, none⟩
  | applied {before after : List Token} {mark : Token} {operator : Operator}
    {left right : Argument} (hleft : IsArgument before left) (hmark : IsMark mark operator)
    (hright : IsArgument after right) :
    IsStage (before ++ mark :: after) ⟨operator, left, some right⟩

/-- Stages with pipes between them. -/
inductive IsExpression : List Token → List Stage → Prop
  | last {tokens : List Token} {stage : Stage} (h : IsStage tokens stage) :
    IsExpression tokens [stage]
  | pipe {before after : List Token} {pipe : Token} {stage : Stage} {rest : List Stage}
    (h : IsStage before stage) (hpipe : pipe.kind = .pipe) (hrest : IsExpression after rest) :
    IsExpression (before ++ pipe :: after) (stage :: rest)

/-! ### What stands where -/

theorem IsSegment.kind {token : Token} {step : Step} (h : IsSegment token step) :
    token.kind = .identifier ∨ token.kind = .integer := by
  cases h with
  | name h => exact Or.inl h
  | index h _ => exact Or.inr h

/-- What follows a segment of a path: nothing, or a dot and more of the path. -/
def IsTail (tokens : List Token) (path : Path) : Prop :=
  (tokens = [] ∧ path = []) ∨
    ∃ dot rest, tokens = dot :: rest ∧ dot.kind = .dot ∧ IsPath rest path

theorem isPath_cons_iff {token : Token} {tokens : List Token} {path : Path} :
    IsPath (token :: tokens) path ↔
      ∃ step rest, path = step :: rest ∧ IsSegment token step ∧ IsTail tokens rest := by
  constructor
  · intro h
    cases h with
    | last h => exact ⟨_, _, rfl, h, Or.inl ⟨rfl, rfl⟩⟩
    | dot h hdot hrest => exact ⟨_, _, rfl, h, Or.inr ⟨_, _, rfl, hdot, hrest⟩⟩
  · rintro ⟨step, rest, rfl, h, ⟨rfl, rfl⟩ | ⟨dot, more, rfl, hdot, hrest⟩⟩
    · exact .last h
    · exact .dot h hdot hrest

theorem IsPath.kinds {tokens : List Token} {path : Path} (h : IsPath tokens path) :
    ∀ t ∈ tokens, t.kind = .identifier ∨ t.kind = .integer ∨ t.kind = .dot := by
  induction h with
  | last h => exact List.forall_mem_singleton.2 (or_assoc.1 (Or.inl h.kind))
  | dot h hdot _ ih =>
    refine List.forall_mem_cons.2 ⟨or_assoc.1 (Or.inl h.kind), List.forall_mem_cons.2 ⟨?_, ih⟩⟩
    exact Or.inr (Or.inr hdot)

/-- No token of an argument separates anything. -/
theorem IsArgument.not_separator {tokens : List Token} {argument : Argument}
    (h : IsArgument tokens argument) :
    ∀ t ∈ tokens, t.kind.isOperator = false ∧ t.kind ≠ .pipe := by
  cases h with
  | string h =>
    refine List.forall_mem_singleton.2 ?_
    rw [h]
    decide
  | path h =>
    intro t ht
    rcases h.kinds t ht with hkind | hkind | hkind <;> rw [hkind] <;> decide

theorem isMark_iff {token : Token} {operator : Operator} :
    IsMark token operator ↔
      token.kind.isOperator = true ∧ operator = Pipeline.operatorOf token.kind := by
  constructor
  · intro h
    cases h with
    | filter h | replace h | merge h => rw [h]; exact ⟨rfl, rfl⟩
  · rintro ⟨hkind, rfl⟩
    obtain ⟨kind, column, text⟩ := token
    cases kind <;> simp [Kind.isOperator] at hkind
    · exact .replace rfl
    · exact .filter rfl
    · exact .merge rfl

/-- No token of a stage is a pipe. -/
theorem IsStage.not_pipe {tokens : List Token} {stage : Stage} (h : IsStage tokens stage) :
    ∀ t ∈ tokens, t.kind ≠ .pipe := by
  cases h with
  | bare h => exact fun t ht => (h.not_separator t ht).2
  | applied hleft hmark hright =>
    refine List.forall_mem_append.2 ⟨fun t ht => (hleft.not_separator t ht).2, ?_⟩
    refine List.forall_mem_cons.2 ⟨fun hpipe => ?_, fun t ht => (hright.not_separator t ht).2⟩
    have hoperator := (isMark_iff.1 hmark).1
    rw [hpipe] at hoperator
    cases hoperator

end Token

end DocMatch
