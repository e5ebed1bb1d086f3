import DocMatch.Proofs.Expr.Acceptance
import DocMatch.Proofs.Expr.Lexeme

/-!
Where reading stops. What can come next in an expression depends on what has been read only through
the place that has been reached:

                STRING
    start ────────────────▶ string ──┐      = == +     start, on the right (from the left only)
      │ IDENT, INT                   ├────▶ |          start, on the left
      ▼             .                │      end        done
    segment ◀───────────────▶ dot    │
      └──────────────────────────────┘

From every place an expression can be completed, so tokens begin an expression exactly when they
lead to a place. Reading follows the places, and stops at the first token that leads to none.
-/

namespace DocMatch

namespace Token

/-- An argument of a stage: the one that is always there, or the one after an operator. -/
inductive Side
  | left | right
  deriving DecidableEq

/-- A place in an expression: where an argument starts, after a string, after a segment, after a
dot, and after the end token. -/
inductive Place
  | start (side : Side)
  | string (side : Side)
  | segment (side : Side)
  | dot (side : Side)
  | done
  deriving DecidableEq

/-- Whether an argument ends before a token of this kind. -/
def Kind.endsArgument (kind : Kind) : Bool := kind.isOperator || kind == .pipe || kind == .eof

/-- Whether a token is a segment of a path. -/
def isSegment (token : Token) : Bool :=
  token.kind == .identifier || token.kind == .integer && decimal token.text < UInt64.size

namespace Place

/-- The place after an argument and what ended it. A stage has no second operator. -/
def leave (side : Side) (kind : Kind) : Option Place :=
  if kind = .eof then some done
  else if kind = .pipe then some (start .left)
  else if kind.isOperator ∧ side = .left then some (start .right)
  else none

/-- The place that a token leads to, if it can stand where it does. -/
def next (place : Place) (token : Token) : Option Place :=
  match place with
  | start side =>
    if token.kind = .string then some (string side)
    else if token.isSegment then some (segment side)
    else none
  | string side => leave side token.kind
  | segment side => if token.kind = .dot then some (dot side) else leave side token.kind
  | dot side => if token.isSegment then some (segment side) else none
  | done => none

/-- The place that tokens lead to. -/
def run (place : Place) (tokens : List Token) : Option Place := tokens.foldlM next place

/-- The first of some tokens that leads to no place. -/
inductive StopsAt : Place → List Token → Token → Prop
  | here {place : Place} {token : Token} {rest : List Token} (h : place.next token = none) :
    StopsAt place (token :: rest) token
  | later {place other : Place} {first token : Token} {rest : List Token}
    (h : place.next first = some other) (hrest : StopsAt other rest token) :
    StopsAt place (first :: rest) token

/-- An argument that stands at this place is complete. -/
def IsComplete (side : Side) (place : Place) : Prop := place = string side ∨ place = segment side

/-- A stage that ends at this place is complete. -/
def IsStageEnd (place : Place) : Prop := ∃ side, place.IsComplete side

variable {place other : Place} {side : Side} {token first stop : Token}
  {tokens before after more : List Token}

theorem run_nil (place : Place) : place.run [] = some place := rfl

theorem run_cons (place : Place) (token : Token) (tokens : List Token) :
    place.run (token :: tokens) = (place.next token).bind (·.run tokens) := rfl

theorem run_append (place : Place) (before after : List Token) :
    place.run (before ++ after) = (place.run before).bind (·.run after) :=
  List.foldlM_append

theorem run_cons_of_next (h : place.next token = some other) :
    place.run (token :: tokens) = other.run tokens := by
  rw [run_cons, h, Option.bind_some]

theorem run_append_of_run (h : place.run before = some other) :
    place.run (before ++ after) = other.run after := by
  rw [run_append, h, Option.bind_some]

theorem StopsAt.append (h : StopsAt place tokens token) (more : List Token) :
    StopsAt place (tokens ++ more) token := by
  induction h with
  | here h => exact .here h
  | later h _ ih => exact .later h ih

theorem StopsAt.of_run (hrun : place.run before = some other) (h : StopsAt other after token) :
    StopsAt place (before ++ after) token := by
  induction before generalizing place with
  | nil =>
    cases hrun
    exact h
  | cons first rest ih =>
    rw [run_cons] at hrun
    obtain ⟨next, hnext, hrest⟩ := Option.bind_eq_some_iff.1 hrun
    exact .later hnext (ih hrest)

/-- All tokens before the first that leads to no place lead to one. -/
theorem StopsAt.exists_split (h : StopsAt place tokens token) :
    ∃ before after other, tokens = before ++ token :: after ∧ place.run before = some other ∧
      other.next token = none := by
  induction h with
  | @here place token rest h => exact ⟨[], rest, place, rfl, rfl, h⟩
  | @later place next first token rest h _ ih =>
    obtain ⟨before, after, other, rfl, hrun, hnone⟩ := ih
    exact ⟨first :: before, after, other, rfl, (run_cons_of_next h).trans hrun, hnone⟩

theorem StopsAt.run_eq_none (h : StopsAt place tokens token) : place.run tokens = none := by
  obtain ⟨before, after, other, rfl, hrun, hnone⟩ := h.exists_split
  rw [run_append_of_run hrun, run_cons, hnone, Option.bind_none]

/-! ### What ends an argument, and what does not -/

theorem leave_of_inner {kind : Kind} (h : kind.endsArgument = false) (side : Side) :
    leave side kind = none := by
  revert h
  cases side <;> cases kind <;> decide

/-- The left argument has an operator after it, the right one has none. -/
theorem leave_of_operator {kind : Kind} (h : kind.isOperator = true) :
    leave .left kind = some (start .right) ∧ leave .right kind = none := by
  revert h
  cases kind <;> decide

theorem isSegment_kind (h : token.isSegment = true) :
    token.kind = .identifier ∨ token.kind = .integer := by
  simp only [isSegment, Bool.or_eq_true, Bool.and_eq_true, beq_iff_eq] at h
  exact h.imp_right fun h => h.1

/-- No segment ends an argument. -/
theorem isSegment_of_ends (h : token.kind.endsArgument = true) : token.isSegment = false := by
  refine Bool.eq_false_iff.2 fun hsegment => ?_
  rcases isSegment_kind hsegment with hkind | hkind <;> rw [hkind] at h <;> cases h

theorem next_start_of_ends (h : stop.kind.endsArgument = true) : (start side).next stop = none := by
  have hstring : stop.kind ≠ .string := by
    intro hkind
    rw [hkind] at h
    cases h
  rw [next, if_neg hstring, isSegment_of_ends h]
  rfl

theorem next_dot_of_not_segment (h : token.isSegment = false) : (dot side).next token = none := by
  rw [next, h]
  rfl

/-- After a complete argument comes what ends it. -/
theorem IsComplete.next_of_ends (h : place.IsComplete side)
    (hstop : stop.kind.endsArgument = true) : place.next stop = leave side stop.kind := by
  rcases h with rfl | rfl
  · rfl
  · have hdot : stop.kind ≠ .dot := by
      intro hkind
      rw [hkind] at hstop
      cases hstop
    rw [next, if_neg hdot]

end Place

/-- What reading makes of tokens, and of the one that stops them, if it follows the places: it
succeeds where they all lead to a place as wanted, and fails at the first that leads to none. -/
inductive Follows (place : Place) (Wanted : Place → Prop) (tokens : List Token) (stop : Token)
    {α : Type} : Except ParseError α → Prop
  | ok {a : α} {other : Place} (h : place.run tokens = some other) (hother : Wanted other) :
    Follows place Wanted tokens stop (.ok a)
  | error {fault : ParseFault} {token : Token} (h : place.StopsAt (tokens ++ [stop]) token) :
    Follows place Wanted tokens stop (.error (.unexpected fault token))

namespace Follows

variable {place other : Place} {Wanted Wanted' : Place → Prop} {token stop mark : Token}
  {tokens before after : List Token} {α β : Type} {r : Except ParseError α}

theorem imp (h : Follows place Wanted tokens stop r)
    (himp : ∀ other, Wanted other → Wanted' other) : Follows place Wanted' tokens stop r := by
  cases h with
  | ok h hother => exact .ok h (himp _ hother)
  | error h => exact .error h

theorem map (h : Follows place Wanted tokens stop r) (f : α → β) :
    Follows place Wanted tokens stop (do return f (← r)) := by
  cases h with
  | ok h hother => exact .ok h hother
  | error h => exact .error h

theorem of_run (hrun : place.run before = some other) (h : Follows other Wanted tokens stop r) :
    Follows place Wanted (before ++ tokens) stop r := by
  cases h with
  | ok h hother => exact .ok ((Place.run_append_of_run hrun).trans h) hother
  | error h =>
    refine .error ?_
    rw [List.append_assoc]
    exact .of_run hrun h

theorem cons (hnext : place.next token = some other) (h : Follows other Wanted tokens stop r) :
    Follows place Wanted (token :: tokens) stop r := by
  have hrun : place.run [token] = some other := Place.run_cons_of_next hnext
  exact h.of_run hrun

/-- What follows the places up to a mark, and goes on doing so from the mark. -/
theorem bind {go : α → Except ParseError β} (h : Follows place Wanted before mark r)
    (hgo : ∀ a other, Wanted other → Follows other Wanted' (mark :: after) stop (go a)) :
    Follows place Wanted' (before ++ mark :: after) stop (r >>= go) := by
  cases h with
  | ok h hother => exact of_run h (hgo _ _ hother)
  | error h =>
    have hmore := h.append (after ++ [stop])
    rw [List.append_assoc, List.singleton_append, ← List.cons_append, ← List.append_assoc] at hmore
    exact .error hmore

end Follows

end Token

/-! ### Reading follows the places -/

namespace Pipeline

open Token Place

variable {token stop : Token} {tokens : List Token} {side : Side}

/-- A name or a number is a segment, or its number is too large. -/
theorem stepOf_cases (h : token.kind = .identifier ∨ token.kind = .integer) :
    (token.isSegment = true ∧ ∃ step, stepOf token = .ok step) ∨
      (token.isSegment = false ∧ stepOf token = .error (.unexpected .invalidIndex token)) := by
  unfold stepOf isSegment
  rw [natOfDigits_eq_decimal]
  rcases h with hkind | hkind
  · exact Or.inl ⟨by simp [hkind], _, if_neg (by simp [hkind])⟩
  · by_cases hsize : decimal token.text < UInt64.size
    · exact Or.inl ⟨by simp [hkind, hsize], _, by rw [if_pos hkind, if_pos hsize]⟩
    · exact Or.inr ⟨by simp [hkind, hsize], by rw [if_pos hkind, if_neg hsize]⟩

mutual

theorem readAfterSegment_follows (side : Side) (hstop : stop.kind.endsArgument = true)
    (tokens : List Token) (h : ∀ t ∈ tokens, t.kind.endsArgument = false) :
    Follows (.segment side) (IsComplete side) tokens stop (readAfterSegment stop tokens) := by
  cases tokens with
  | nil => exact .ok rfl (Or.inr rfl)
  | cons token rest =>
    obtain ⟨htoken, hrest⟩ := List.forall_mem_cons.1 h
    rw [readAfterSegment]
    cases hfault : faultAfterSegment token.kind with
    | some fault =>
      have hdot : token.kind ≠ .dot := fun hkind => by
        cases hfault.symm.trans (faultAfterSegment_eq_none_iff.2 hkind)
      refine .error (.here ?_)
      rw [next, if_neg hdot, leave_of_inner htoken]
    | none =>
      have hdot := faultAfterSegment_eq_none_iff.1 hfault
      exact .cons (if_pos hdot) (readAfterDot_follows side hstop rest hrest)

theorem readAfterDot_follows (side : Side) (hstop : stop.kind.endsArgument = true)
    (tokens : List Token) (h : ∀ t ∈ tokens, t.kind.endsArgument = false) :
    Follows (.dot side) (IsComplete side) tokens stop (readAfterDot stop tokens) := by
  cases tokens with
  | nil => exact .error (.here (next_dot_of_not_segment (isSegment_of_ends hstop)))
  | cons token rest =>
    obtain ⟨htoken, hrest⟩ := List.forall_mem_cons.1 h
    rw [readAfterDot]
    cases hfault : faultAfterDot token.kind with
    | some fault =>
      refine .error (.here (next_dot_of_not_segment (Bool.eq_false_iff.2 fun hsegment => ?_)))
      cases hfault.symm.trans (faultAfterDot_eq_none_iff.2 (isSegment_kind hsegment))
    | none =>
      rcases stepOf_cases (faultAfterDot_eq_none_iff.1 hfault) with
        ⟨hsegment, step, hstep⟩ | ⟨hsegment, hstep⟩
      · have hnext : (Place.dot side).next token = some (.segment side) := if_pos hsegment
        simp only [hstep]
        exact .cons hnext ((readAfterSegment_follows side hstop rest hrest).map _)
      · simp only [hstep]
        exact .error (.here (next_dot_of_not_segment hsegment))

end

theorem readString_follows (side : Side) (text : String)
    (h : ∀ t ∈ tokens, t.kind.endsArgument = false) :
    Follows (.string side) (IsComplete side) tokens stop (readString text tokens) := by
  cases tokens with
  | nil => exact .ok rfl (Or.inl rfl)
  | cons token rest => exact .error (.here (leave_of_inner (h token List.mem_cons_self) side))

theorem readArgument_follows (side : Side) (hstop : stop.kind.endsArgument = true)
    (h : ∀ t ∈ tokens, t.kind.endsArgument = false) :
    Follows (.start side) (IsComplete side) tokens stop (readArgument ⟨tokens, stop⟩) := by
  cases tokens with
  | nil => exact .error (.here (next_start_of_ends hstop))
  | cons token rest =>
    obtain ⟨_, hrest⟩ := List.forall_mem_cons.1 h
    simp only [readArgument]
    cases hfault : faultAtStart token.kind with
    | some fault =>
      have hkind : ¬ (token.kind = .identifier ∨ token.kind = .integer ∨ token.kind = .string) := by
        rw [← faultAtStart_eq_none_iff, hfault]
        nofun
      refine .error (.here ?_)
      rw [next, if_neg fun hstring => hkind (Or.inr (Or.inr hstring)), if_neg fun hsegment => ?_]
      exact hkind (or_assoc.1 (Or.inl (isSegment_kind hsegment)))
    | none =>
      by_cases hstring : token.kind = .string
      · simp only [if_pos hstring]
        exact .cons (if_pos hstring) (readString_follows side token.text hrest)
      · have hkind := (or_assoc.2 (faultAtStart_eq_none_iff.1 hfault)).resolve_right hstring
        have hnext : (Place.start side).next token =
            if token.isSegment then some (.segment side) else none := if_neg hstring
        simp only [if_neg hstring]
        rcases stepOf_cases hkind with ⟨hsegment, step, hstep⟩ | ⟨hsegment, hstep⟩
        · simp only [hstep]
          rw [hsegment] at hnext
          exact .cons hnext ((readAfterSegment_follows side hstop rest hrest).map _)
        · simp only [hstep]
          rw [hsegment] at hnext
          exact .error (.here hnext)

theorem readStage_follows (hstop : stop.kind.endsArgument = true)
    (h : ∀ t ∈ tokens, t.kind ≠ .pipe ∧ t.kind ≠ .eof) :
    Follows (.start .left) IsStageEnd tokens stop (readStage ⟨tokens, stop⟩) := by
  have hinner : ∀ t ∈ tokens, t.kind.isOperator = false → t.kind.endsArgument = false := by
    intro t ht hoperator
    simp [Kind.endsArgument, hoperator, h t ht]
  have hends : ∀ {t : Token}, t.kind.isOperator = true → t.kind.endsArgument = true := by
    intro t ht
    simp [Kind.endsArgument, ht]
  rcases cut_cases Kind.isOperator tokens with hnone | ⟨before, mark, after, rfl, hbefore, hmark⟩
  · rw [readStage_of_forall hnone]
    have hleft := readArgument_follows .left hstop fun t ht => hinner t ht (hnone t ht)
    exact (hleft.imp fun _ hcomplete => ⟨_, hcomplete⟩).map _
  · obtain ⟨hinnerBefore, hinnerAfter⟩ := List.forall_mem_append.1 hinner
    have hinnerAfter := (List.forall_mem_cons.1 hinnerAfter).2
    have hleft := readArgument_follows .left (hends hmark) fun t ht =>
      hinnerBefore t ht (hbefore t ht)
    have hcross : ∀ place : Place, place.IsComplete .left →
        place.next mark = some (.start .right) := by
      intro place hplace
      rw [hplace.next_of_ends (hends hmark), (leave_of_operator hmark).1]
    -- a second operator stops the right argument, and leads to no place
    rcases cut_cases Kind.isOperator after with hnone | ⟨right, next, rest, rfl, hbare, hnext⟩
    · have hright := readArgument_follows .right hstop fun t ht => hinnerAfter t ht (hnone t ht)
      rw [readStage_append hbefore hmark (cutAt_of_forall hnone)]
      refine hleft.bind fun left place hplace => .cons (hcross place hplace) ?_
      exact (hright.imp fun _ hcomplete => ⟨_, hcomplete⟩).map _
    · have hright := readArgument_follows .right (hends hnext) fun t ht =>
        hinnerAfter t (List.mem_append_left _ ht) (hbare t ht)
      rw [readStage_append hbefore hmark (cutAt_append hbare hnext)]
      refine hleft.bind fun left place hplace => .cons (hcross place hplace) ?_
      refine hright.bind fun right other hother => .error (.here ?_)
      rw [hother.next_of_ends (hends hnext), (leave_of_operator hnext).2]

theorem readStages_follows {ending : Token} (hending : ending.kind = .eof)
    (h : ∀ t ∈ tokens, t.kind ≠ .eof) :
    Follows (.start .left) IsStageEnd tokens ending (readStages ending tokens) := by
  induction hlength : tokens.length using Nat.strong_induction_on generalizing tokens with
  | _ length ih =>
    rcases cut_cases (· == .pipe) tokens with hnone | ⟨before, pipe, after, rfl, hbefore, hpipe⟩
    · have hends : ending.kind.endsArgument = true := by rw [hending]; rfl
      rw [readStages_of_forall hnone]
      exact (readStage_follows hends fun t ht => ⟨ne_of_beq_false (hnone t ht), h t ht⟩).map _
    · obtain ⟨heofBefore, heofAfter⟩ := List.forall_mem_append.1 h
      have hkind : pipe.kind = .pipe := beq_iff_eq.1 hpipe
      have hends : pipe.kind.endsArgument = true := by rw [hkind]; rfl
      have hstage := readStage_follows hends fun t ht =>
        ⟨ne_of_beq_false (hbefore t ht), heofBefore t ht⟩
      have hshorter : after.length < length := by
        rw [← hlength, List.length_append, List.length_cons]
        omega
      have hcross : ∀ place, IsStageEnd place → place.next pipe = some (.start .left) := by
        rintro place ⟨side, hplace⟩
        rw [hplace.next_of_ends hends, hkind]
        rfl
      have hmore := ih _ hshorter (List.forall_mem_cons.1 heofAfter).2 rfl
      rw [readStages_append hbefore hpipe]
      exact hstage.bind fun stage place hplace => .cons (hcross place hplace) (hmore.map _)

/-- Reading gives the stages, or the error that reading them gives. -/
theorem readStages_eq (ending : Token) (tokens : List Token) :
    readStages ending tokens = (ofTokens ending tokens).map stages := by
  unfold readStages ofTokens
  rcases cutAt (· == Kind.pipe) ending tokens with ⟨head, more⟩
  simp only [List.mapM_cons, bind, Except.bind]
  cases readStage head with
  | error e => rfl
  | ok first => cases more.mapM readStage <;> rfl

end Pipeline

namespace Token

open Place

/-! ### Beginnings of expressions -/

/-- The tokens of an expression, with an end token after them. -/
def IsSentence (tokens : List Token) : Prop :=
  ∃ body ending stages, tokens = body ++ [ending] ∧ ending.kind = .eof ∧ IsExpression body stages

/-- Tokens that can be completed to those of an expression. -/
def IsBeginning (tokens : List Token) : Prop := ∃ more, IsSentence (tokens ++ more)

variable {tokens : List Token} {token : Token} {place other : Place} {side : Side}

theorem IsSegment.isSegment {step : Step} (h : IsSegment token step) : token.isSegment = true := by
  cases h with
  | name h => simp [Token.isSegment, h]
  | index h hi =>
    have hsize : decimal token.text < UInt64.size := hi ▸ UInt64.toNat_lt _
    simp [Token.isSegment, h, hsize]

/-- A segment can stand where an argument starts and after a dot. -/
theorem IsSegment.next {step : Step} (h : IsSegment token step)
    (hplace : place = .start side ∨ place = .dot side) :
    place.next token = some (.segment side) := by
  rcases hplace with rfl | rfl
  · have hstring : token.kind ≠ .string := by
      rcases h.kind with hkind | hkind <;> rw [hkind] <;> decide
    rw [Place.next, if_neg hstring, if_pos h.isSegment]
  · exact if_pos h.isSegment

theorem IsPath.run {path : Path} (h : IsPath tokens path)
    (hplace : place = .start side ∨ place = .dot side) :
    place.run tokens = some (.segment side) := by
  induction h generalizing place with
  | last h => rw [run_cons_of_next (h.next hplace), run_nil]
  | dot h hdot _ ih =>
    have hnext : (Place.segment side).next _ = some (.dot side) := if_pos hdot
    rw [run_cons_of_next (h.next hplace), run_cons_of_next hnext, ih (Or.inr rfl)]

theorem IsArgument.run {argument : Argument} (h : IsArgument tokens argument) (side : Side) :
    ∃ place, (Place.start side).run tokens = some place ∧ place.IsComplete side := by
  cases h with
  | string h =>
    have hnext : (Place.start side).next _ = some (.string side) := if_pos h
    exact ⟨_, run_cons_of_next hnext, Or.inl rfl⟩
  | path h => exact ⟨_, h.run (Or.inl rfl), Or.inr rfl⟩

theorem IsStage.run {stage : Stage} (h : IsStage tokens stage) :
    ∃ place, (Place.start .left).run tokens = some place ∧ place.IsStageEnd := by
  cases h with
  | bare h =>
    obtain ⟨place, hrun, hplace⟩ := h.run .left
    exact ⟨place, hrun, _, hplace⟩
  | applied hleft hmark hright =>
    obtain ⟨place, hrun, hplace⟩ := hleft.run .left
    obtain ⟨other, hother, hcomplete⟩ := hright.run .right
    have hoperator := (isMark_iff.1 hmark).1
    have hnext : place.next _ = some (.start .right) :=
      (hplace.next_of_ends (by simp [Kind.endsArgument, hoperator])).trans
        (leave_of_operator hoperator).1
    exact ⟨other, by rw [run_append_of_run hrun, run_cons_of_next hnext, hother], _, hcomplete⟩

theorem IsExpression.run {stages : List Stage} (h : IsExpression tokens stages) :
    ∃ place, (Place.start .left).run tokens = some place ∧ place.IsStageEnd := by
  induction h with
  | last h => exact h.run
  | pipe h hpipe _ ih =>
    obtain ⟨place, hrun, side, hplace⟩ := h.run
    obtain ⟨other, hother, hend⟩ := ih
    have hnext : place.next _ = some (.start .left) :=
      (hplace.next_of_ends (by rw [hpipe]; rfl)).trans (by rw [hpipe]; rfl)
    exact ⟨other, by rw [run_append_of_run hrun, run_cons_of_next hnext, hother], hend⟩

theorem leave_eof_iff {kind : Kind} (h : leave side kind = some other) :
    kind = .eof ↔ other = .done := by
  unfold leave at h
  by_cases heof : kind = .eof
  · rw [if_pos heof] at h
    cases h
    exact iff_of_true heof rfl
  · rw [if_neg heof] at h
    refine iff_of_false heof ?_
    rintro rfl
    split at h
    · cases h
    · split at h <;> cases h

theorem ne_eof_of_isSegment (h : token.isSegment = true) : token.kind ≠ .eof := by
  rcases isSegment_kind h with hkind | hkind <;> rw [hkind] <;> decide

/-- End tokens, and no others, lead to the end. -/
theorem next_eof_iff (h : place.next token = some other) : token.kind = .eof ↔ other = .done := by
  cases place with
  | start side =>
    rw [next] at h
    by_cases hstring : token.kind = .string
    · rw [if_pos hstring] at h
      cases h
      exact iff_of_false (by rw [hstring]; decide) nofun
    · rw [if_neg hstring] at h
      split at h
      · cases h
        exact iff_of_false (ne_eof_of_isSegment ‹_›) nofun
      · cases h
  | string side => exact leave_eof_iff h
  | segment side =>
    rw [next] at h
    by_cases hdot : token.kind = .dot
    · rw [if_pos hdot] at h
      cases h
      exact iff_of_false (by rw [hdot]; decide) nofun
    · rw [if_neg hdot] at h
      exact leave_eof_iff h
  | dot side =>
    rw [next] at h
    split at h
    · cases h
      exact iff_of_false (ne_eof_of_isSegment ‹_›) nofun
    · cases h
  | done => cases h

/-- Before the end there has been no end token. -/
theorem ne_eof_of_run (h : place.run tokens = some other) (hother : other ≠ .done) :
    ∀ t ∈ tokens, t.kind ≠ .eof := by
  induction tokens generalizing place with
  | nil => exact fun t ht => absurd ht List.not_mem_nil
  | cons first rest ih =>
    rw [run_cons] at h
    obtain ⟨next, hnext, hrest⟩ := Option.bind_eq_some_iff.1 h
    refine List.forall_mem_cons.2 ⟨fun heof => ?_, ih hrest⟩
    obtain rfl := (next_eof_iff hnext).1 heof
    cases rest with
    | nil =>
      cases hrest
      exact hother rfl
    | cons second more => cases hrest

/-- Tokens lead to the end exactly when they are those of an expression with the end token. -/
theorem run_eq_done_iff : (Place.start .left).run tokens = some .done ↔ IsSentence tokens := by
  constructor
  · intro h
    rcases List.eq_nil_or_concat tokens with rfl | ⟨body, ending, rfl⟩
    · cases h
    · rw [List.concat_eq_append] at h ⊢
      rw [run_append] at h
      obtain ⟨place, hrun, hnext⟩ := Option.bind_eq_some_iff.1 h
      rw [run_cons] at hnext
      obtain ⟨last, hlast, hdone⟩ := Option.bind_eq_some_iff.1 hnext
      cases hdone
      have hplace : place ≠ .done := by
        rintro rfl
        cases hlast
      have hending := (next_eof_iff hlast).2 rfl
      have hfollows := Pipeline.readStages_follows hending (ne_eof_of_run hrun hplace)
      cases hread : Pipeline.readStages ending body with
      | ok stages =>
        exact ⟨body, ending, stages, rfl, hending, Pipeline.isExpression_of_readStages hread⟩
      | error e =>
        rw [hread] at hfollows
        cases hfollows with
        | error hstops =>
          have hnone := hstops.run_eq_none
          rw [run_append_of_run hrun, run_cons, hlast] at hnone
          cases hnone
  · rintro ⟨body, ending, stages, rfl, hending, hexpression⟩
    obtain ⟨place, hrun, side, hplace⟩ := hexpression.run
    have hnext : place.next ending = some .done :=
      (hplace.next_of_ends (by rw [hending]; rfl)).trans (by rw [hending]; rfl)
    rw [run_append_of_run hrun, run_cons_of_next hnext, run_nil]

/-- From every place the end can be reached. -/
theorem exists_run_eq_done (place : Place) : ∃ more, place.run more = some .done := by
  cases place with
  | start side => exact ⟨[⟨.identifier, 0, "a"⟩, ⟨.eof, 0, ""⟩], rfl⟩
  | string side => exact ⟨[⟨.eof, 0, ""⟩], rfl⟩
  | segment side => exact ⟨[⟨.eof, 0, ""⟩], rfl⟩
  | dot side => exact ⟨[⟨.identifier, 0, "a"⟩, ⟨.eof, 0, ""⟩], rfl⟩
  | done => exact ⟨[], rfl⟩

/-- Tokens begin an expression exactly when they lead to a place. -/
theorem isBeginning_iff :
    IsBeginning tokens ↔ ∃ place, (Place.start .left).run tokens = some place := by
  constructor
  · rintro ⟨more, hsentence⟩
    have hdone := run_eq_done_iff.2 hsentence
    rw [run_append] at hdone
    obtain ⟨place, hrun, _⟩ := Option.bind_eq_some_iff.1 hdone
    exact ⟨place, hrun⟩
  · rintro ⟨place, hrun⟩
    obtain ⟨more, hmore⟩ := exists_run_eq_done place
    exact ⟨more, run_eq_done_iff.1 ((run_append_of_run hrun).trans hmore)⟩

/-- What begins a beginning is one. -/
theorem IsBeginning.shorten {start : List Token} (h : IsBeginning tokens)
    (hstart : start <+: tokens) : IsBeginning start := by
  obtain ⟨rest, rfl⟩ := hstart
  obtain ⟨more, hmore⟩ := h
  exact ⟨rest ++ more, by rwa [← List.append_assoc]⟩

end Token

namespace Pipeline

open Token Place

/-- The error of a text is at the first token that leads to no place. -/
theorem stopsAt_of_parse {text : String} {e : ParseError} (h : parse text = .error e) :
    ∃ fault token, e = .unexpected fault token ∧
      (Place.start .left).StopsAt (Token.tokens text ++ [Token.ending text]) token := by
  have heof : ∀ t ∈ Token.tokens text, t.kind ≠ .eof := by
    intro t ht
    obtain ⟨_, _, hlexeme⟩ := Cursor.isLexeme_of_mem_tokens ht
    exact hlexeme.ne_eof
  have hending : (Token.ending text).kind = .eof := rfl
  have hfollows := readStages_follows hending heof
  rw [readStages_eq, show ofTokens (Token.ending text) (Token.tokens text) = .error e from h]
    at hfollows
  cases hfollows with
  | error hstops => exact ⟨_, _, rfl, hstops⟩

/-- An error is at the first token out of place: it carries that token, and of the tokens up to the
end those that begin an expression are exactly those that end before it. -/
theorem error_at_first_fault {text : String} {e : ParseError} (h : parse text = .error e) :
    ∃ fault before token after, e = .unexpected fault token ∧
      Token.tokens text ++ [Token.ending text] = before ++ token :: after ∧
      ∀ start, start <+: Token.tokens text ++ [Token.ending text] →
        (IsBeginning start ↔ start <+: before) := by
  obtain ⟨fault, token, rfl, hstops⟩ := stopsAt_of_parse h
  obtain ⟨before, after, place, hsplit, hrun, hnone⟩ := hstops.exists_split
  refine ⟨fault, before, token, after, rfl, hsplit, fun start hstart => ⟨fun hbegin => ?_, ?_⟩⟩
  · -- what is longer has the token in it, and leads to no place
    have hbefore : before <+: Token.tokens text ++ [Token.ending text] :=
      ⟨token :: after, hsplit.symm⟩
    rcases List.prefix_or_prefix_of_prefix hstart hbefore with hshort | ⟨rest, rfl⟩
    · exact hshort
    · cases rest with
      | nil => exact ⟨[], by simp⟩
      | cons first rest =>
        rw [hsplit, List.prefix_append_right_inj] at hstart
        obtain ⟨rfl, _⟩ := List.cons_prefix_cons.1 hstart
        obtain ⟨other, hother⟩ := isBeginning_iff.1 hbegin
        rw [run_append_of_run hrun, run_cons, hnone] at hother
        cases hother
  · exact fun hshort => (isBeginning_iff.2 ⟨place, hrun⟩).shorten hshort

/-- A path that ends with a dot is noticed at the pipe after it. -/
theorem error_at_first_fault_pipe :
    let x : Token := ⟨.string, 1, "x"⟩
    let assign : Token := ⟨.assign, 4, "="⟩
    let a : Token := ⟨.identifier, 5, "a"⟩
    let dot : Token := ⟨.dot, 6, "."⟩
    let pipe : Token := ⟨.pipe, 8, "|"⟩
    parse "\"x\"=a. |b" = .error (.unexpected .trailingDot pipe) ∧
      IsBeginning [x, assign, a, dot] ∧ ¬ IsBeginning [x, assign, a, dot, pipe] := by
  intro x assign a dot pipe
  have hparse : parse "\"x\"=a. |b" = .error (.unexpected .trailingDot pipe) := by decide +kernel
  have htokens : Token.tokens "\"x\"=a. |b" ++ [Token.ending "\"x\"=a. |b"] =
      [x, assign, a, dot] ++ pipe :: [⟨.identifier, 9, "b"⟩, ⟨.eof, 9, ""⟩] := by decide +kernel
  obtain ⟨fault, before, token, after, he, hsplit, hbegin⟩ := error_at_first_fault hparse
  rw [htokens] at hsplit hbegin
  cases he
  have hbefore : before = [x, assign, a, dot] := by
    rcases before with _ | ⟨_, _ | ⟨_, _ | ⟨_, _ | ⟨_, _ | ⟨_, more⟩⟩⟩⟩⟩
    all_goals simp [x, assign, a, dot, pipe] at hsplit
    · obtain ⟨rfl, rfl, rfl, rfl, _⟩ := hsplit
      rfl
    · have hmem : pipe ∈ more ++ pipe :: after := by simp
      simp [pipe, ← hsplit.2.2.2.2.2] at hmem
  subst hbefore
  refine ⟨hparse, (hbegin _ ⟨_, rfl⟩).2 List.prefix_rfl, fun hlong => ?_⟩
  have hshort := ((hbegin [x, assign, a, dot, pipe] ⟨_, rfl⟩).1 hlong).length_le
  simp at hshort

end Pipeline

end DocMatch
