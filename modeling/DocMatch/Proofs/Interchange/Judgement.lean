import DocMatch.Proofs.Interchange.Report

/-!
The judgement of a tree of the right form, layer by layer: a step, an argument, a stage and a
pipeline are each decoded to what they stand for if there are no violations in them, and else the
first violation is reported.

What a tree stands for is no deeper than the tree and can be encoded. So decoding, under any limit
that the tree keeps, has a normal form: the operator first and always there, no nulls and no fields
of other names.
-/

namespace DocMatch

namespace Decode

open Draft (ofJson)
open Json

/-! ### Leaves -/

theorem position_of_position? {j : Json} {i : UInt64} (h : j.position? = some i) :
    position (ofJson j) = .ok i := by
  cases j with
  | integer n =>
    rw [position?] at h
    rw [ofJson, position]
    split at h
    · next hn => rw [if_pos hn, Option.some.inj h]
    · cases h
  | _ => cases h

theorem text_of_text? {j : Json} {s : String} (h : j.text? = some s) : text (ofJson j) = .ok s := by
  cases j with
  | string t => cases h; rfl
  | _ => cases h

theorem checkedLiteral_of_isEncodable {l : Literal} (h : (Argument.literal l).IsEncodable) :
    Draft.checkedLiteral l = .ok l := by
  cases l with
  | float x => exact if_pos h
  | _ => rfl

theorem number_of_number? {j : Json} {l : Literal} (h : j.number? = some l) :
    number (ofJson j) = .ok l := by
  obtain ⟨hliteral, hencodable⟩ := number?_eq_some_iff.1 h
  cases j with
  | integer n =>
    cases hliteral
    rw [ofJson, number, checkedLiteral_of_isEncodable hencodable]
    rfl
  | float x =>
    cases hliteral
    rw [ofJson, number, checkedLiteral_of_isEncodable hencodable]
    rfl
  | _ => cases hliteral

theorem ofCode?_isSome_iff {code : Nat} : (Operator.ofCode? code).isSome ↔ code ≤ 3 := by
  constructor
  · intro h
    by_contra hcode
    have hnone : Operator.ofCode? code = none := by
      unfold Operator.ofCode?
      split <;> first | rfl | omega
    rw [hnone] at h
    cases h
  · intro h
    obtain rfl | rfl | rfl | rfl : code = 0 ∨ code = 1 ∨ code = 2 ∨ code = 3 := by omega
    all_goals rfl

theorem operator_reports {j : Json} (h : j.code?.isSome) :
    Reports (fun op => j.operator? = some op) j.operatorViolations (operator (ofJson j)) := by
  cases j with
  | integer n =>
    obtain ⟨code, hcode⟩ := Option.isSome_iff_exists.1 h
    have hn : 0 ≤ n ∧ n < UInt8.size ∧ n.toNat = code := by
      rw [code?] at hcode
      split at hcode
      · next hn => exact ⟨hn.1, hn.2, Option.some.inj hcode⟩
      · cases hcode
    rw [ofJson, operator, if_pos ⟨hn.1, hn.2.1⟩, operatorViolations, hcode, hn.2.2]
    simp only [operator?, hcode, Option.bind_some]
    cases hop : Operator.ofCode? code with
    | none =>
      have hunknown : ¬ code ≤ 3 := by
        intro hle
        rw [← ofCode?_isSome_iff, hop] at hle
        cases hle
      rw [if_neg hunknown]
      rfl
    | some op =>
      rw [if_pos (ofCode?_isSome_iff.1 (Option.isSome_of_eq_some hop))]
      exact .ok rfl
  | _ => cases h

/-! ### Records -/

/-- The fields of a step are those of the members read so far; so too below. -/
structure StepFields.IsReadFrom (f : StepFields) (ms : List (String × Json)) : Prop where
  idx : Tracks position? "idx" ms f.idx
  ident : Tracks text? "ident" ms f.ident

structure ArgumentFields.IsReadFrom (f : ArgumentFields) (ms : List (String × Json)) : Prop where
  num : Tracks number? "num" ms f.num
  string : Tracks text? "string" ms f.string
  path : Tracks (list? step?) "path" ms f.path

structure StageFields.IsReadFrom (f : StageFields) (ms : List (String × Json)) : Prop where
  op : Tracks operator? "op" ms (f.op.map some)
  args : Tracks (list? argument?) "args" ms (f.args.map some)

structure PipelineFields.IsReadFrom (f : PipelineFields) (ms : List (String × Json)) : Prop where
  expression : Tracks stage? "expression" ms (f.expression.map some)
  pipe : Tracks pipeline? "pipe" ms f.pipe

/-- A step of the right form is judged when it closes. -/
theorem step_reports {j : Json} (h : j.IsStepForm) {limit : Nat} (hdepth : j.depth ≤ limit) :
    Reports (fun s => j.step? = some s) j.stepViolations (step limit (ofJson j)) := by
  have hparts : j.within (fun _ _ => []) = [] := List.flatMap_eq_nil_iff.2 fun _ _ => rfl
  rw [← List.nil_append j.stepViolations, ← hparts]
  refine (record_reports StepFields.IsReadFrom h.toIsRecord hdepth ⟨.nil, .nil⟩ ?_ ?_).bind ?_
  · rintro pre f name k read hk _ hnew ⟨hidx, hident⟩ hread
    simp only [List.mem_cons, Prod.mk.injEq, List.not_mem_nil, or_false] at hread
    rcases hread with ⟨rfl, rfl⟩ | ⟨rfl, rfl⟩
    · refine hidx.leaf hnew rfl (h.idx k hk) (fun _ => position_of_position?) fun hidx => ?_
      exact ⟨hidx, hident.concat_of_ne (by decide)⟩
    · refine hident.leaf hnew rfl (h.ident k hk) (fun _ => text_of_text?) fun hident => ?_
      exact ⟨hidx.concat_of_ne (by decide), hident⟩
  · rintro pre f name k hother ⟨hidx, hident⟩
    simp only [Fields.names_cons, Fields.names_nil, List.mem_cons, List.not_mem_nil, or_false,
      not_or] at hother
    exact ⟨rfl, hidx.concat_of_ne hother.1, hident.concat_of_ne hother.2⟩
  · rintro f ⟨hidx, hident⟩
    rw [step?, ← hidx.join, ← hident.join, stepViolations, given, List.countP_cons,
      List.countP_cons, hidx.gives rfl, hident.gives rfl, StepFields.toStep]
    cases f.idx.join <;> cases f.ident.join
    · rfl
    · exact .ok rfl
    · exact .ok rfl
    · rfl

/-- The steps of an argument are judged before it closes. -/
theorem argument_reports {j : Json} (h : j.IsArgumentForm) {limit : Nat}
    (hdepth : j.depth ≤ limit) :
    Reports (fun a => j.argument? = some a) j.argumentViolations (argument limit (ofJson j)) := by
  have hstart : ArgumentFields.IsReadFrom {} [] := ⟨.nil, .nil, .nil⟩
  refine (record_reports ArgumentFields.IsReadFrom h.toIsRecord hdepth hstart ?_ ?_).bind ?_
  · rintro pre f name k read hk hlt hnew ⟨hnum, hstring, hpath⟩ hread
    simp only [List.mem_cons, Prod.mk.injEq, List.not_mem_nil, or_false] at hread
    rcases hread with ⟨rfl, rfl⟩ | ⟨rfl, rfl⟩ | ⟨rfl, rfl⟩
    · refine hnum.leaf hnew rfl (h.num k hk) (fun _ => number_of_number?) fun hnum => ?_
      exact ⟨hnum, hstring.concat_of_ne (by decide), hpath.concat_of_ne (by decide)⟩
    · refine hstring.leaf hnew rfl (h.string k hk) (fun _ => text_of_text?) fun hstring => ?_
      exact ⟨hnum.concat_of_ne (by decide), hstring, hpath.concat_of_ne (by decide)⟩
    · refine hpath.optional hnew rfl (by rintro rfl; rfl) (fun hnull => ?_) fun hpath => ?_
      · refine items_reports ((h.path k hk).resolve_left hnull) (Nat.le_sub_one_of_lt hlt) ?_
        exact fun step hstep _ => step_reports hstep
      · exact ⟨hnum.concat_of_ne (by decide), hstring.concat_of_ne (by decide), hpath⟩
  · rintro pre f name k hother ⟨hnum, hstring, hpath⟩
    simp only [Fields.names_cons, Fields.names_nil, List.mem_cons, List.not_mem_nil, or_false,
      not_or] at hother
    exact ⟨if_neg hother.2.2, hnum.concat_of_ne hother.1, hstring.concat_of_ne hother.2.1,
      hpath.concat_of_ne hother.2.2⟩
  · rintro f ⟨hnum, hstring, hpath⟩
    rw [argument?, ← hnum.join, ← hstring.join, ← hpath.join, argumentClosing, given,
      List.countP_cons, List.countP_cons, List.countP_cons, hnum.gives rfl, hstring.gives rfl,
      hpath.gives rfl, ArgumentFields.toArgument]
    cases hp : f.path.join with
    | none =>
      cases f.num.join <;> cases f.string.join
      · rfl
      · exact .ok rfl
      · exact .ok rfl
      · rfl
    | some p =>
      -- a path alone may still be empty, which its items tell
      have hlength := length_itemsAt (hpath.join.symm.trans hp)
      cases f.num.join <;> cases f.string.join
      · cases p with
        | nil =>
          rw [List.eq_nil_of_length_eq_zero hlength]
          rfl
        | cons step rest =>
          obtain ⟨k, ks, hks⟩ := List.exists_cons_of_length_eq_add_one hlength
          rw [hks]
          exact .ok rfl
      · rfl
      · rfl
      · rfl

/-- The number of a stage is judged where it stands, before the arguments or after them. -/
theorem stage_reports {j : Json} (h : j.IsStageForm) {limit : Nat} (hdepth : j.depth ≤ limit) :
    Reports (fun st => j.stage? = some st) j.stageViolations (stage limit (ofJson j)) := by
  refine (record_reports StageFields.IsReadFrom h.toIsRecord hdepth ⟨.nil, .nil⟩ ?_ ?_).bind ?_
  · rintro pre f name k read hk hlt hnew ⟨hop, hargs⟩ hread
    simp only [List.mem_cons, Prod.mk.injEq, List.not_mem_nil, or_false] at hread
    rcases hread with ⟨rfl, rfl⟩ | ⟨rfl, rfl⟩
    · refine hop.required hnew (operator_reports (h.op k hk)) fun op hop => ?_
      exact ⟨hop, hargs.concat_of_ne (by decide)⟩
    · obtain ⟨l, hl, hform⟩ := h.args
      cases hk.symm.trans hl
      have hitems := items_reports hform (Nat.le_sub_one_of_lt hlt) fun a ha _ => argument_reports ha
      refine hargs.required hnew hitems fun as has => ?_
      exact ⟨hop.concat_of_ne (by decide), has⟩
  · rintro pre f name k hother ⟨hop, hargs⟩
    simp only [Fields.names_cons, Fields.names_nil, List.mem_cons, List.not_mem_nil, or_false,
      not_or] at hother
    exact ⟨(if_neg hother.1).trans (if_neg hother.2), hop.concat_of_ne hother.1,
      hargs.concat_of_ne hother.2⟩
  · rintro ⟨op, args⟩ ⟨hop, hargs⟩
    have hview := hop.elim .filter
    obtain ⟨k, hk, _⟩ := h.args
    obtain ⟨as, rfl, hlist⟩ := hargs.exists_of_field? hk
    have hlength := length_itemsAt hlist
    rw [stage?, hview, hlist, stageClosing, hlength]
    -- no arguments, one, two, more
    rcases as with _ | ⟨left, _ | ⟨right, _ | ⟨more, rest⟩⟩⟩
    · rfl
    · exact .ok rfl
    · exact .ok rfl
    · rfl

/-- What is wrong in a field of a pipeline. -/
def pipelinePart (name : String) (j : Json) : List EncodingError :=
  (if name = "expression" then [j] else if name = "pipe" then j.stages else []).flatMap
    stageViolations

theorem violations_eq_within {j : Json} (h : j.IsRecord) :
    j.violations = j.within pipelinePart := by
  obtain ⟨ms, rfl, _⟩ := h.exists_members
  rw [violations, stages, memberStages_eq_flatMap, List.flatMap_assoc]
  rfl

/-- What was read of the pipeline after a stage. -/
theorem Tracks.later {j : Json} {x : Option (Option Pipeline)}
    (h : Tracks pipeline? "pipe" j.members x) :
    ((j.field? "pipe").elim (some []) fun k =>
      if k.isNull then some [] else k.pipeline?.map Pipeline.stages) =
        some (x.join.elim [] Pipeline.stages) := by
  cases h with
  | missing hnone =>
    rw [field?, hnone]
    rfl
  | @found l hl hsome =>
    rw [field?, hl]
    rcases hsome with rfl | hsome
    · rfl
    · obtain ⟨p, hp⟩ := Option.isSome_iff_exists.1 hsome
      rw [hp]
      cases l with
      | object _ => exact congrArg (Option.map Pipeline.stages) hp
      | _ => cases hp

/-- A pipeline is judged as its stage and the pipeline after it are. -/
theorem pipeline_reports_of_pipe {j k : Json} (hj : j.IsRecord)
    (hfirst : j.field? "expression" = some k) (hform : k.IsStageForm)
    (hpipe : ∀ l ∈ j.field? "pipe", l = null ∨ ∀ limit, l.depth ≤ limit →
      Reports (fun p => l.pipeline? = some p) l.violations (pipeline limit (ofJson l)))
    {limit : Nat} (hdepth : j.depth ≤ limit) :
    Reports (fun p => j.pipeline? = some p) j.violations (pipeline limit (ofJson j)) := by
  obtain ⟨inner, rfl⟩ : ∃ inner, limit = inner + 1 := by
    have hlt := Nat.lt_of_lt_of_le (depth_lt_of_field? hfirst) hdepth
    exact Nat.exists_eq_succ_of_ne_zero (Nat.ne_zero_of_lt hlt)
  rw [violations_eq_within hj, ← List.append_nil (j.within pipelinePart), pipeline]
  refine (record_reports PipelineFields.IsReadFrom hj hdepth ⟨.nil, .nil⟩ ?_ ?_).bind ?_
  · rintro pre f name l read hl hlt hnew ⟨hexpression, hrest⟩ hread
    simp only [List.mem_cons, Prod.mk.injEq, List.not_mem_nil, or_false] at hread
    rcases hread with ⟨rfl, rfl⟩ | ⟨rfl, rfl⟩
    · cases hl.symm.trans hfirst
      have hpart : pipelinePart "expression" k = k.stageViolations := List.append_nil _
      rw [hpart]
      have hstage := stage_reports hform (Nat.le_of_lt_succ hlt)
      refine hexpression.required hnew hstage fun st hst => ?_
      exact ⟨hst, hrest.concat_of_ne (by decide)⟩
    · refine hrest.optional hnew rfl (by rintro rfl; rfl) (fun hnull => ?_) fun hrest => ?_
      · exact (hpipe l hl).resolve_left hnull inner (Nat.le_of_lt_succ hlt)
      · exact ⟨hexpression.concat_of_ne (by decide), hrest⟩
  · rintro pre f name l hother ⟨hexpression, hrest⟩
    simp only [Fields.names_cons, Fields.names_nil, List.mem_cons, List.not_mem_nil, or_false,
      not_or] at hother
    have hpart : pipelinePart name l = [] := by
      rw [pipelinePart, if_neg hother.1, if_neg hother.2]
      rfl
    exact ⟨hpart, hexpression.concat_of_ne hother.1, hrest.concat_of_ne hother.2⟩
  · rintro ⟨expression, pipe⟩ ⟨hexpression, hrest⟩
    obtain ⟨first, rfl, hview⟩ := hexpression.exists_of_field? hfirst
    have hpipeline := (pipeline?_eq_some_iff hj).2 ⟨hview, hrest.later⟩
    rw [hpipeline, PipelineFields.toPipeline]
    cases pipe.join <;> exact .ok rfl

theorem pipeline_reports {j : Json} (h : j.IsPipelineForm) {limit : Nat}
    (hdepth : j.depth ≤ limit) :
    Reports (fun p => j.pipeline? = some p) j.violations (pipeline limit (ofJson j)) := by
  induction h generalizing limit with
  | last hj hfirst hform hpipe =>
    exact pipeline_reports_of_pipe hj hfirst hform
      (fun l hl => .inl (gives_eq_false_iff.1 hpipe l hl)) hdepth
  | next hj hfirst hform hpipe _ ih =>
    refine pipeline_reports_of_pipe hj hfirst hform (fun l hl => .inr ?_) hdepth
    cases hpipe.symm.trans hl
    exact fun limit hlimit => ih hlimit

/-- A tree of the right form is decoded exactly if every stage of it is valid; if not, what is wrong
is the first violation in reading order. What was decoded is what the tree stands for, and encoding it
gives a normal form: that is decoded to the same pipeline, which encoded again gives the same tree. -/
theorem pipeline_of_isPipelineForm {j : Json} (h : j.IsPipelineForm) {limit : Nat}
    (hlimit : j.depth ≤ limit) :
    ((∃ p, pipeline limit (ofJson j) = .ok p) ↔ ∀ stage ∈ j.stages, stage.IsValidStage) ∧
    (∀ e, pipeline limit (ofJson j) = .error e ↔
      ∃ v, j.violations.head? = some v ∧ e = .encoding v) ∧
    ∀ p, pipeline limit (ofJson j) = .ok p →
      j.pipeline? = some p ∧ pipeline limit (ofJson p.encode) = .ok p ∧
        (pipeline limit (ofJson p.encode)).map Pipeline.encode = .ok p.encode := by
  have hreports := pipeline_reports h hlimit
  rw [← violations_eq_nil_iff h]
  cases hviolations : j.violations with
  | nil =>
    rw [hviolations] at hreports
    obtain ⟨p, hp, hview⟩ := hreports
    obtain ⟨hencodable, hdepth⟩ := isEncodable_of_pipeline? h hview
    have hagain : pipeline limit (ofJson p.encode) = .ok p :=
      (pipeline_encode hencodable limit).trans (if_pos (Nat.le_trans hdepth hlimit))
    rw [hp]
    refine ⟨⟨fun _ => rfl, fun _ => ⟨p, rfl⟩⟩, fun e => ⟨nofun, nofun⟩, ?_⟩
    rintro _ ⟨⟩
    exact ⟨hview, hagain, by rw [hagain]; rfl⟩
  | cons v more =>
    rw [hviolations] at hreports
    have herror : pipeline limit (ofJson j) = .error (.encoding v) := hreports
    rw [herror]
    refine ⟨⟨nofun, nofun⟩, fun e => ?_, nofun⟩
    constructor
    · rintro ⟨⟩
      exact ⟨v, rfl, rfl⟩
    · rintro ⟨_, ⟨⟩, rfl⟩
      rfl

/-- The fields of a stage in the other order, a null, an operator zero and a field of another name;
and a stage with three things wrong, of which the first is reported. -/
theorem pipeline_of_isPipelineForm_reordered :
    let a : Json := object [("ident", string "a"), ("idx", null)]
    let one : Json := object [("num", integer 1)]
    let good : Json := object [("pipe", null), ("note", array []),
      ("expression", object [("args", array [object [("path", array [a])], one]),
        ("op", integer 0)])]
    let bad : Json := object [("expression", object [
      ("args", array [object [("path", array [a, object []])],
        object [("num", integer 1), ("path", array [])]]), ("op", integer 7)])]
    let p : Pipeline := ⟨⟨.filter, .path [.key "a"], some (.literal (.integer 1))⟩, []⟩
    bad.violations = [.emptyStep, .ambiguousArgument, .unknownOperator 7] ∧
      pipeline 6 (ofJson bad) = .error (.encoding .emptyStep) ∧
      pipeline 6 (ofJson good) = .ok p ∧ pipeline 6 (ofJson p.encode) = .ok p := by
  intro a one good bad p
  have hlist {P : Json → Prop} {js : List Json} (h : ∀ k ∈ js, P k) : IsArrayOf P (array js) :=
    ⟨js, rfl, h⟩
  have hstep : a.IsStepForm :=
    ⟨⟨rfl, by decide⟩, by rintro _ ⟨⟩; exact .inl rfl, by rintro _ ⟨⟩; exact .inr rfl⟩
  have hempty : (object []).IsStepForm := ⟨⟨rfl, by decide⟩, nofun, nofun⟩
  have hone : one.IsArgumentForm :=
    ⟨⟨rfl, by decide⟩, by rintro _ ⟨⟩; exact .inr (by decide +kernel), nofun, nofun⟩
  have hpath : (object [("path", array [a])]).IsArgumentForm :=
    ⟨⟨rfl, by decide⟩, nofun, nofun, by
      rintro _ ⟨⟩; exact .inr (hlist (List.forall_mem_singleton.2 hstep))⟩
  have hwrong : (object [("path", array [a, object []])]).IsArgumentForm :=
    ⟨⟨rfl, by decide⟩, nofun, nofun, by
      rintro _ ⟨⟩
      exact .inr (hlist (List.forall_mem_cons.2 ⟨hstep, List.forall_mem_singleton.2 hempty⟩))⟩
  have hboth : (object [("num", integer 1), ("path", array [])]).IsArgumentForm :=
    ⟨⟨rfl, by decide⟩, by rintro _ ⟨⟩; exact .inr (by decide +kernel), nofun, by
      rintro _ ⟨⟩; exact .inr (hlist nofun)⟩
  have hgood : good.IsPipelineForm :=
    .last ⟨rfl, by decide⟩ rfl
      ⟨⟨rfl, by decide⟩, by rintro _ ⟨⟩; decide, _, rfl,
        hlist (List.forall_mem_cons.2 ⟨hpath, List.forall_mem_singleton.2 hone⟩)⟩ rfl
  have hbad : bad.IsPipelineForm :=
    .last ⟨rfl, by decide⟩ rfl
      ⟨⟨rfl, by decide⟩, by rintro _ ⟨⟩; decide, _, rfl,
        hlist (List.forall_mem_cons.2 ⟨hwrong, List.forall_mem_singleton.2 hboth⟩)⟩ rfl
  have hviolations : bad.violations = [.emptyStep, .ambiguousArgument, .unknownOperator 7] := by
    decide +kernel
  have hvalid := (violations_eq_nil_iff hgood).1 (by decide +kernel)
  have hview : good.pipeline? = some p := by decide +kernel
  have hgooddepth : good.depth ≤ 6 := by decide +kernel
  have hbaddepth : bad.depth ≤ 6 := by decide +kernel
  obtain ⟨haccepted, _, hnormal⟩ := pipeline_of_isPipelineForm hgood hgooddepth
  obtain ⟨q, hq⟩ := haccepted.2 hvalid
  obtain ⟨hqview, hagain, _⟩ := hnormal q hq
  obtain rfl : q = p := Option.some.inj (hqview.symm.trans hview)
  obtain ⟨_, hfails, _⟩ := pipeline_of_isPipelineForm hbad hbaddepth
  refine ⟨hviolations, (hfails _).2 ⟨.emptyStep, ?_, rfl⟩, hq, hagain⟩
  rw [hviolations]
  rfl

end Decode

end DocMatch
