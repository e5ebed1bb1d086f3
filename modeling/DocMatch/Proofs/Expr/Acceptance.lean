import DocMatch.Proofs.Expr.Grammar
import DocMatch.Proofs.Result

/-!
What reading accepts. The tokens are cut at their pipes, and each piece at its operators. Neither
stands within what it separates, so the pieces are those of a derivation; and a piece is read as an
argument exactly when it is one.

    tokens      a . 0 == "x" | b
    at pipes    a . 0 == "x"           b
    at marks    a . 0        "x"       b
    read        a, 0         "x"       b           filter with a literal, filter without

So reading accepts what the grammar derives, and gives the stages of the derivation.
-/

namespace DocMatch

/-! ### Cutting tokens at separators -/

namespace Token

section

variable {separator : Kind → Bool} {ending token : Token} {tokens before after : List Token}

theorem cutAt_of_forall (h : ∀ t ∈ tokens, separator t.kind = false) :
    cutAt separator ending tokens = (⟨tokens, ending⟩, []) := by
  induction tokens with
  | nil => rfl
  | cons token rest ih =>
    obtain ⟨htoken, hrest⟩ := List.forall_mem_cons.1 h
    simp [cutAt, htoken, ih hrest]

/-- The first separator ends the first piece. -/
theorem cutAt_append (h : ∀ t ∈ before, separator t.kind = false)
    (htoken : separator token.kind = true) :
    cutAt separator ending (before ++ token :: after) =
      (⟨before, token⟩,
        (cutAt separator ending after).1 :: (cutAt separator ending after).2) := by
  induction before with
  | nil => simp [cutAt, htoken]
  | cons first rest ih =>
    obtain ⟨hfirst, hrest⟩ := List.forall_mem_cons.1 h
    simp [cutAt, hfirst, ih hrest]

/-- Tokens hold no separator, or there is a first one. -/
theorem cut_cases (separator : Kind → Bool) (tokens : List Token) :
    (∀ t ∈ tokens, separator t.kind = false) ∨
      ∃ before token after, tokens = before ++ token :: after ∧
        (∀ t ∈ before, separator t.kind = false) ∧ separator token.kind = true := by
  induction tokens with
  | nil => exact Or.inl nofun
  | cons first rest ih =>
    cases hfirst : separator first.kind with
    | true => exact Or.inr ⟨[], first, rest, rfl, nofun, hfirst⟩
    | false =>
      rcases ih with hrest | ⟨before, token, after, rfl, hbefore, htoken⟩
      · exact Or.inl (List.forall_mem_cons.2 ⟨hfirst, hrest⟩)
      · exact Or.inr ⟨first :: before, token, after, rfl,
          List.forall_mem_cons.2 ⟨hfirst, hbefore⟩, htoken⟩

end

end Token

/-! ### Arguments -/

namespace Pipeline

open Token

variable {token stop : Token} {tokens : List Token} {step : Step} {path : Path}

theorem natOfDigits_eq_decimal (text : String) : natOfDigits text.toList = decimal text := by
  unfold natOfDigits decimal
  rw [Nat.ofDigits_eq_foldr, List.foldr_map, List.foldr_reverse]
  simp only [Nat.cast_id, Nat.add_comm]

theorem stepOf_eq_ok_iff (h : token.kind = .identifier ∨ token.kind = .integer) :
    stepOf token = .ok step ↔ IsSegment token step := by
  unfold stepOf
  rw [natOfDigits_eq_decimal]
  by_cases hkind : token.kind = .integer
  · rw [if_pos hkind]
    by_cases hsize : decimal token.text < UInt64.size
    · rw [if_pos hsize]
      have hnat : (UInt64.ofNat (decimal token.text)).toNat = decimal token.text :=
        UInt64.toNat_ofNat_of_lt' hsize
      constructor
      · intro hstep
        cases hstep
        exact .index hkind hnat.symm
      · intro hsegment
        cases hsegment with
        | name hname => cases hkind.symm.trans hname
        | index _ hi => rw [UInt64.toNat_inj.1 (hnat.trans hi)]
    · rw [if_neg hsize]
      refine iff_of_false nofun fun hsegment => ?_
      cases hsegment with
      | name hname => cases hkind.symm.trans hname
      | index _ hi =>
        rw [hi] at hsize
        exact absurd (UInt64.toNat_lt _) hsize
  · rw [if_neg hkind]
    constructor
    · intro hstep
      cases hstep
      exact .name (h.resolve_right hkind)
    · intro hsegment
      cases hsegment with
      | name _ => rfl
      | index hindex _ => exact absurd hindex hkind

theorem faultAfterDot_eq_none_iff {kind : Kind} :
    faultAfterDot kind = none ↔ kind = .identifier ∨ kind = .integer := by
  cases kind <;> decide

theorem faultAfterSegment_eq_none_iff {kind : Kind} :
    faultAfterSegment kind = none ↔ kind = .dot := by
  cases kind <;> decide

theorem faultAtStart_eq_none_iff {kind : Kind} :
    faultAtStart kind = none ↔ kind = .identifier ∨ kind = .integer ∨ kind = .string := by
  cases kind <;> decide

mutual

/-- After a segment reading accepts what can follow it. -/
theorem readAfterSegment_eq_ok_iff (stop : Token) (tokens : List Token) (path : Path) :
    readAfterSegment stop tokens = .ok path ↔ IsTail tokens path := by
  cases tokens with
  | nil =>
    constructor
    · intro h
      cases h
      exact Or.inl ⟨rfl, rfl⟩
    · rintro (⟨_, rfl⟩ | ⟨dot, rest, hcons, _⟩)
      · rfl
      · cases hcons
  | cons dot rest =>
    rw [readAfterSegment]
    cases hfault : faultAfterSegment dot.kind with
    | some fault =>
      refine iff_of_false nofun ?_
      rintro (⟨hnil, _⟩ | ⟨_, _, hcons, hdot, _⟩)
      · cases hnil
      · cases hcons
        cases hfault.symm.trans (faultAfterSegment_eq_none_iff.2 hdot)
    | none =>
      have hdot := faultAfterSegment_eq_none_iff.1 hfault
      refine (readAfterDot_eq_ok_iff stop rest path).trans ⟨fun h => ?_, ?_⟩
      · exact Or.inr ⟨dot, rest, rfl, hdot, h⟩
      · rintro (⟨hnil, _⟩ | ⟨_, _, hcons, _, hpath⟩)
        · cases hnil
        · cases hcons
          exact hpath

/-- After a dot reading accepts paths. -/
theorem readAfterDot_eq_ok_iff (stop : Token) (tokens : List Token) (path : Path) :
    readAfterDot stop tokens = .ok path ↔ IsPath tokens path := by
  cases tokens with
  | nil => exact iff_of_false nofun nofun
  | cons token rest =>
    rw [readAfterDot, isPath_cons_iff]
    cases hfault : faultAfterDot token.kind with
    | some fault =>
      refine iff_of_false nofun ?_
      rintro ⟨step, more, _, hsegment, _⟩
      cases hfault.symm.trans (faultAfterDot_eq_none_iff.2 hsegment.kind)
    | none =>
      have hkind := faultAfterDot_eq_none_iff.1 hfault
      simp only [bind_eq_ok, stepOf_eq_ok_iff hkind, readAfterSegment_eq_ok_iff stop rest]
      constructor
      · rintro ⟨step, hstep, more, hmore, hpath⟩
        cases hpath
        exact ⟨step, more, rfl, hstep, hmore⟩
      · rintro ⟨step, more, rfl, hstep, hmore⟩
        exact ⟨step, hstep, more, hmore, rfl⟩

end

/-- A string is an argument alone. -/
theorem readString_eq_ok_iff (h : token.kind = .string) {argument : Argument} :
    readString token.text tokens = .ok argument ↔ IsArgument (token :: tokens) argument := by
  have hpath : ∀ path, ¬ IsPath (token :: tokens) path := by
    intro path hpath
    obtain ⟨_, _, _, hsegment, _⟩ := isPath_cons_iff.1 hpath
    rcases hsegment.kind with hkind | hkind
    · cases h.symm.trans hkind
    · cases h.symm.trans hkind
  cases tokens with
  | nil =>
    constructor
    · intro hread
      cases hread
      exact .string h
    · intro hargument
      cases hargument with
      | string _ => rfl
      | path hp => exact absurd hp (hpath _)
  | cons next rest =>
    refine iff_of_false nofun fun hargument => ?_
    cases hargument with
    | path hp => exact absurd hp (hpath _)

/-- Reading accepts arguments, whatever stops them. -/
theorem readArgument_eq_ok_iff (cut : Cut) (argument : Argument) :
    readArgument cut = .ok argument ↔ IsArgument cut.body argument := by
  obtain ⟨body, stop⟩ := cut
  cases body with
  | nil =>
    refine iff_of_false nofun fun h => ?_
    cases h with
    | path h => cases h
  | cons token rest =>
    simp only [readArgument]
    cases hfault : faultAtStart token.kind with
    | some fault =>
      have hkind : ¬ (token.kind = .identifier ∨ token.kind = .integer ∨ token.kind = .string) := by
        rw [← faultAtStart_eq_none_iff, hfault]
        nofun
      refine iff_of_false nofun fun h => ?_
      cases h with
      | string h => exact hkind (Or.inr (Or.inr h))
      | path h =>
        obtain ⟨_, _, _, hsegment, _⟩ := isPath_cons_iff.1 h
        exact hkind (or_assoc.1 (Or.inl hsegment.kind))
    | none =>
      by_cases hstring : token.kind = .string
      · simp only [if_pos hstring]
        exact readString_eq_ok_iff hstring
      · have hkind : token.kind = .identifier ∨ token.kind = .integer :=
          (or_assoc.2 (faultAtStart_eq_none_iff.1 hfault)).resolve_right hstring
        simp only [if_neg hstring, bind_eq_ok, stepOf_eq_ok_iff hkind,
          readAfterSegment_eq_ok_iff stop rest]
        constructor
        · rintro ⟨step, hstep, path, hpath, hargument⟩
          cases hargument
          exact .path (isPath_cons_iff.2 ⟨step, path, rfl, hstep, hpath⟩)
        · intro h
          cases h with
          | string h => exact absurd h hstring
          | path h =>
            obtain ⟨step, path, rfl, hstep, hpath⟩ := isPath_cons_iff.1 h
            exact ⟨step, hstep, path, hpath, rfl⟩

end Pipeline

/-! ### Stages and expressions -/

namespace Pipeline

open Token

variable {stop mark : Token} {body before after : List Token}

theorem readStage_of_forall (h : ∀ t ∈ body, t.kind.isOperator = false) :
    readStage ⟨body, stop⟩ = do return ⟨.filter, ← readArgument ⟨body, stop⟩, none⟩ := by
  unfold readStage
  rw [cutAt_of_forall h]

theorem readStage_append (h : ∀ t ∈ before, t.kind.isOperator = false)
    (hmark : mark.kind.isOperator = true) {right : Cut} {more : List Cut}
    (hafter : cutAt Kind.isOperator stop after = (right, more)) :
    readStage ⟨before ++ mark :: after, stop⟩ = (do
      let leftArgument ← readArgument ⟨before, mark⟩
      let rightArgument ← readArgument right
      if more.isEmpty then return ⟨operatorOf mark.kind, leftArgument, some rightArgument⟩
      else throw (.unexpected .chainedOperator right.stop)) := by
  unfold readStage
  rw [cutAt_append h hmark, hafter]

theorem readStage_of_isStage {stage : Stage} (h : IsStage body stage) :
    readStage ⟨body, stop⟩ = .ok stage := by
  cases h with
  | bare h =>
    rw [readStage_of_forall fun t ht => (h.not_separator t ht).1]
    exact bind_eq_ok.2 ⟨_, (readArgument_eq_ok_iff _ _).2 h, rfl⟩
  | applied hleft hmark hright =>
    obtain ⟨hoperator, rfl⟩ := isMark_iff.1 hmark
    have hbefore := fun t ht => (hleft.not_separator t ht).1
    have hafter := fun t ht => (hright.not_separator t ht).1
    rw [readStage_append hbefore hoperator (cutAt_of_forall hafter)]
    refine bind_eq_ok.2 ⟨_, (readArgument_eq_ok_iff _ _).2 hleft, ?_⟩
    exact bind_eq_ok.2 ⟨_, (readArgument_eq_ok_iff _ _).2 hright, rfl⟩

theorem isStage_of_readStage {stage : Stage} (h : readStage ⟨body, stop⟩ = .ok stage) :
    IsStage body stage := by
  rcases cut_cases Kind.isOperator body with hnone | ⟨before, mark, after, rfl, hbefore, hmark⟩
  · rw [readStage_of_forall hnone] at h
    obtain ⟨left, hleft, h⟩ := bind_eq_ok.1 h
    cases h
    exact .bare ((readArgument_eq_ok_iff _ _).1 hleft)
  · -- a second operator is a fault, so what comes after the first is an argument
    rcases cut_cases Kind.isOperator after with hnone | ⟨right, next, rest, rfl, hright, hnext⟩
    · rw [readStage_append hbefore hmark (cutAt_of_forall hnone)] at h
      obtain ⟨leftArgument, hleft, h⟩ := bind_eq_ok.1 h
      obtain ⟨rightArgument, hright, h⟩ := bind_eq_ok.1 h
      cases h
      exact .applied ((readArgument_eq_ok_iff _ _).1 hleft) (isMark_iff.2 ⟨hmark, rfl⟩)
        ((readArgument_eq_ok_iff _ _).1 hright)
    · rw [readStage_append hbefore hmark (cutAt_append hright hnext)] at h
      obtain ⟨_, _, h⟩ := bind_eq_ok.1 h
      obtain ⟨_, _, h⟩ := bind_eq_ok.1 h
      cases h

/-- Reading accepts stages, whatever stops them. -/
theorem readStage_eq_ok_iff {stage : Stage} :
    readStage ⟨body, stop⟩ = .ok stage ↔ IsStage body stage :=
  ⟨isStage_of_readStage, readStage_of_isStage⟩

/-- The stages that tokens are cut into at their pipes. -/
def readStages (ending : Token) (tokens : List Token) : Except ParseError (List Stage) :=
  let cuts := cutAt (· == .pipe) ending tokens
  (cuts.1 :: cuts.2).mapM readStage

theorem ofTokens_eq_ok_iff {ending : Token} {tokens : List Token} {p : Pipeline} :
    ofTokens ending tokens = .ok p ↔ readStages ending tokens = .ok p.stages := by
  unfold ofTokens readStages
  simp only [List.mapM_cons, bind_eq_ok]
  constructor
  · rintro ⟨first, hfirst, rest, hrest, hp⟩
    cases hp
    exact ⟨first, hfirst, rest, hrest, rfl⟩
  · rintro ⟨stage, hstage, rest, hrest, hp⟩
    obtain ⟨rfl, rfl⟩ := List.cons.inj (Except.ok.inj hp)
    exact ⟨_, hstage, _, hrest, rfl⟩

variable {ending pipe : Token} {tokens : List Token} {stages : List Stage}

theorem readStages_of_forall (h : ∀ t ∈ tokens, (t.kind == .pipe) = false) :
    readStages ending tokens = do return [← readStage ⟨tokens, ending⟩] := by
  unfold readStages
  rw [cutAt_of_forall h]
  rfl

theorem readStages_append (h : ∀ t ∈ before, (t.kind == .pipe) = false)
    (hpipe : (pipe.kind == .pipe) = true) :
    readStages ending (before ++ pipe :: after) =
      do return (← readStage ⟨before, pipe⟩) :: (← readStages ending after) := by
  unfold readStages
  rw [cutAt_append h hpipe, List.mapM_cons]

theorem readStages_of_isExpression (h : IsExpression tokens stages) :
    readStages ending tokens = .ok stages := by
  induction h with
  | last h =>
    rw [readStages_of_forall fun t ht => beq_false_of_ne (h.not_pipe t ht), readStage_eq_ok_iff.2 h]
    rfl
  | pipe h hpipe _ ih =>
    rw [readStages_append (fun t ht => beq_false_of_ne (h.not_pipe t ht)) (beq_iff_eq.2 hpipe),
      readStage_eq_ok_iff.2 h, ih]
    rfl

theorem isExpression_of_readStages (h : readStages ending tokens = .ok stages) :
    IsExpression tokens stages := by
  induction hlength : tokens.length using Nat.strong_induction_on generalizing tokens stages with
  | _ length ih =>
    rcases cut_cases (· == .pipe) tokens with hnone | ⟨before, pipe, after, rfl, hbefore, hpipe⟩
    · rw [readStages_of_forall hnone] at h
      obtain ⟨stage, hstage, h⟩ := bind_eq_ok.1 h
      cases h
      exact .last (readStage_eq_ok_iff.1 hstage)
    · rw [readStages_append hbefore hpipe] at h
      obtain ⟨stage, hstage, h⟩ := bind_eq_ok.1 h
      obtain ⟨rest, hrest, h⟩ := bind_eq_ok.1 h
      cases h
      have hshorter : after.length < length := by
        rw [← hlength, List.length_append, List.length_cons]
        omega
      exact .pipe (readStage_eq_ok_iff.1 hstage) (beq_iff_eq.1 hpipe) (ih _ hshorter hrest rfl)

/-- Reading accepts exactly the texts whose tokens the grammar derives up to the end token, and gives
the stages of the derivation from left to right. -/
theorem parse_eq_ok_iff (text : String) (p : Pipeline) :
    parse text = .ok p ↔ IsExpression (Token.tokens text) p.stages := by
  unfold parse
  rw [ofTokens_eq_ok_iff]
  exact ⟨isExpression_of_readStages, readStages_of_isExpression⟩

end Pipeline

end DocMatch
