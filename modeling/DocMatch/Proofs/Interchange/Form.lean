import DocMatch.Proofs.Interchange.RoundTrip

/-!
The interchange form, looked up instead of read. A tree of the right form has objects where objects
belong, with distinct fields and every field of its type; fields of other names are of no account,
and a field that is null is taken as absent. What such a tree stands for, and what is wrong with it,
is told by looking its fields up.

    {args: [{path: [{ident: "a"}, {}]}, {num: 1, path: []}], op: 7}

    emptyStep              the step {} closes
    ambiguousArgument      the second argument closes
    unknownOperator 7      the operator stands after the arguments

A tree may have many violations. They are listed in reading order: the operator is judged where it
stands, and a step, an argument and a stage when it closes.
-/

namespace DocMatch

namespace Json

/-! ### Looking up -/

/-- The members of an object. -/
def members : Json → List (String × Json)
  | object ms => ms
  | _ => []

def isObject : Json → Bool
  | object _ => true
  | _ => false

def isNull : Json → Bool
  | null => true
  | _ => false

/-- The items of an array. -/
def items? : Json → Option (List Json)
  | array js => some js
  | _ => none

/-- A field of an object, if it is there. -/
def field? (j : Json) (name : String) : Option Json := Fields.get? name j.members

/-- Whether a field is given: it is there and not null. -/
def gives (j : Json) (name : String) : Bool := (j.field? name).any fun k => !k.isNull

/-- How many of some fields are given. -/
def given (j : Json) (names : List String) : Nat := names.countP j.gives

/-- The items of a field, none if the field is no array. -/
def itemsAt (j : Json) (name : String) : List Json := ((j.field? name).bind items?).getD []

mutual

/-- The trees of the stages of a pipeline, in reading order. -/
def stages : Json → List Json
  | object ms => memberStages ms
  | _ => []

def memberStages : List (String × Json) → List Json
  | [] => []
  | (name, j) :: rest =>
    (if name = "expression" then [j] else if name = "pipe" then j.stages else [])
      ++ memberStages rest

end

/-! ### What the values of fields stand for -/

def position? : Json → Option UInt64
  | integer n => if 0 ≤ n ∧ n < UInt64.size then some (UInt64.ofNat n.toNat) else none
  | _ => none

def text? : Json → Option String
  | string s => some s
  | _ => none

/-- The literal of a number. -/
def literal? : Json → Option Literal
  | integer n => some (Literal.ofInt n)
  | float x => some (Literal.float x)
  | _ => none

/-- The literal of a finite number. -/
def number? (j : Json) : Option Literal :=
  j.literal?.filter fun l => (Argument.literal l).IsEncodable

/-- The number of an operator, known or not. -/
def code? : Json → Option Nat
  | integer n => if 0 ≤ n ∧ n < UInt8.size then some n.toNat else none
  | _ => none

def operator? (j : Json) : Option Operator := j.code?.bind Operator.ofCode?

/-- What all items of an array stand for. -/
def list? {α : Type} (view : Json → Option α) (j : Json) : Option (List α) :=
  j.items?.bind fun js => js.mapM view

def step? (j : Json) : Option Step :=
  match (j.field? "idx").bind position?, (j.field? "ident").bind text? with
  | some i, none => some (.index i)
  | none, some name => some (.key name)
  | _, _ => none

def argument? (j : Json) : Option Argument :=
  match (j.field? "num").bind number?, (j.field? "string").bind text?,
    (j.field? "path").bind (list? step?) with
  | some l, none, none => some (.literal l)
  | none, some s, none => some (.literal (.string s))
  | none, none, some (step :: rest) => some (.path (step :: rest))
  | _, _, _ => none

/-- The operator of a stage is the filter if its number is absent. -/
def stage? (j : Json) : Option Stage :=
  match (j.field? "op").elim (some .filter) operator?,
    (j.field? "args").bind (list? argument?) with
  | some op, some [left] => some ⟨op, left, none⟩
  | some op, some [left, right] => some ⟨op, left, some right⟩
  | _, _ => none

mutual

/-- The pipeline that a tree stands for. -/
def pipeline? : Json → Option Pipeline
  | object ms =>
    match (Fields.get? "expression" ms).bind stage?, laterStages? ms with
    | some first, some rest => some ⟨first, rest⟩
    | _, _ => none
  | _ => none

/-- The stages of the pipeline in the field for what follows, if that is given. -/
def laterStages? : List (String × Json) → Option (List Stage)
  | [] => some []
  | (name, j) :: rest =>
    if name = "pipe" then
      if j.isNull then some [] else (pipeline? j).map Pipeline.stages
    else laterStages? rest

end

/-! ### Forms -/

/-- A field is absent, or null, or of its type. -/
def Optionally (j : Json) (name : String) (P : Json → Prop) : Prop :=
  ∀ k ∈ j.field? name, k = null ∨ P k

/-- Every item of an array has some form. -/
def IsArrayOf (P : Json → Prop) (j : Json) : Prop := ∃ js, j = array js ∧ ∀ k ∈ js, P k

/-- An object without repeated fields. -/
structure IsRecord (j : Json) : Prop where
  isObject : j.isObject = true
  distinct : (Fields.names j.members).Nodup

structure IsStepForm (j : Json) : Prop extends j.IsRecord where
  idx : j.Optionally "idx" fun k => k.position?.isSome
  ident : j.Optionally "ident" fun k => k.text?.isSome

structure IsArgumentForm (j : Json) : Prop extends j.IsRecord where
  num : j.Optionally "num" fun k => k.number?.isSome
  string : j.Optionally "string" fun k => k.text?.isSome
  path : j.Optionally "path" (IsArrayOf IsStepForm)

structure IsStageForm (j : Json) : Prop extends j.IsRecord where
  op : ∀ k ∈ j.field? "op", k.code?.isSome
  args : ∃ k ∈ j.field? "args", k.IsArrayOf IsArgumentForm

/-- The form of a pipeline: a record with a stage, and perhaps a pipeline after it. -/
inductive IsPipelineForm : Json → Prop
  | last {j k : Json} : j.IsRecord → j.field? "expression" = some k → k.IsStageForm →
      j.gives "pipe" = false → IsPipelineForm j
  | next {j k l : Json} : j.IsRecord → j.field? "expression" = some k → k.IsStageForm →
      j.field? "pipe" = some l → IsPipelineForm l → IsPipelineForm j

/-! ### Violations -/

def stepViolations (j : Json) : List EncodingError :=
  match j.given ["idx", "ident"] with
  | 0 => [.emptyStep]
  | 1 => []
  | _ => [.ambiguousStep]

/-- What is wrong in the fields of an object, in the order of its members. -/
def within (j : Json) (part : String → Json → List EncodingError) : List EncodingError :=
  j.members.flatMap fun m => part m.1 m.2

/-- What is wrong in the items of an array, in their order. -/
def along (part : Json → List EncodingError) (j : Json) : List EncodingError :=
  (j.items?.getD []).flatMap part

def argumentPart (name : String) (j : Json) : List EncodingError :=
  if name = "path" then j.along stepViolations else []

def argumentClosing (j : Json) : List EncodingError :=
  match j.given ["num", "string", "path"] with
  | 0 => [.emptyArgument]
  | 1 => if j.gives "path" && (j.itemsAt "path").isEmpty then [.emptyPath] else []
  | _ => [.ambiguousArgument]

def argumentViolations (j : Json) : List EncodingError :=
  j.within argumentPart ++ j.argumentClosing

def operatorViolations (j : Json) : List EncodingError :=
  match j.code? with
  | some code => if code ≤ 3 then [] else [.unknownOperator code]
  | none => []

def stagePart (name : String) (j : Json) : List EncodingError :=
  if name = "op" then j.operatorViolations
  else if name = "args" then j.along argumentViolations
  else []

def stageClosing (j : Json) : List EncodingError :=
  match (j.itemsAt "args").length with
  | 1 | 2 => []
  | n => [.argumentCount n]

def stageViolations (j : Json) : List EncodingError := j.within stagePart ++ j.stageClosing

/-- All that is wrong with the tree of a pipeline, in reading order. -/
def violations (j : Json) : List EncodingError := j.stages.flatMap stageViolations

/-! ### Validity -/

/-- A step has exactly one of its two fields. -/
def IsValidStep (j : Json) : Prop := j.given ["idx", "ident"] = 1

/-- An argument has exactly one of its three fields, and its path has steps, all of them valid. -/
structure IsValidArgument (j : Json) : Prop where
  one : j.given ["num", "string", "path"] = 1
  path : j.gives "path" = true → j.itemsAt "path" ≠ []
  steps : ∀ k ∈ j.itemsAt "path", k.IsValidStep

/-- A stage has one or two arguments, all of them valid, and no operator beyond the third. -/
structure IsValidStage (j : Json) : Prop where
  op : ∀ code ∈ (j.field? "op").bind code?, code ≤ 3
  count : (j.itemsAt "args").length = 1 ∨ (j.itemsAt "args").length = 2
  args : ∀ k ∈ j.itemsAt "args", k.IsValidArgument

/-! ### No violations -/

section

variable {j : Json} {name : String}

theorem IsRecord.exists_members (h : j.IsRecord) :
    ∃ ms, j = object ms ∧ (Fields.names ms).Nodup := by
  cases j with
  | object ms => exact ⟨ms, rfl, h.distinct⟩
  | _ => cases h.isObject

theorem stepViolations_eq_nil_iff : j.stepViolations = [] ↔ j.IsValidStep := by
  unfold stepViolations IsValidStep
  split <;> simp_all

/-- In a record the only part that a field can have is its own. -/
theorem within_eq_nil_iff (h : j.IsRecord) {part : String → Json → List EncodingError} :
    j.within part = [] ↔ ∀ name, ∀ k ∈ j.field? name, part name k = [] := by
  unfold within
  rw [List.flatMap_eq_nil_iff]
  constructor
  · exact fun hall name k hk => hall (name, k) ((Fields.get?_eq_some_iff h.distinct).1 hk)
  · exact fun hall m hm => hall m.1 m.2 ((Fields.get?_eq_some_iff h.distinct).2 hm)

theorem along_eq_nil_iff {part : Json → List EncodingError} :
    j.along part = [] ↔ ∀ k ∈ j.items?.getD [], part k = [] :=
  List.flatMap_eq_nil_iff

/-- A field is less deep than its object. -/
theorem depth_lt_of_field? {k : Json} (h : j.field? name = some k) :
    k.depth < j.depth := by
  cases j with
  | object ms => exact Nat.lt_succ_of_le (depth_le_membersDepth (Fields.mem_of_get? h))
  | _ => cases h

theorem itemsAt_of_field? {k : Json} (h : j.field? name = some k) :
    j.itemsAt name = k.items?.getD [] := by
  rw [itemsAt, h]
  cases k <;> rfl

/-- The items of a field are judged one by one. -/
theorem along_field_eq_nil_iff {part : Json → List EncodingError} :
    (∀ k ∈ j.field? name, k.along part = []) ↔ ∀ k ∈ j.itemsAt name, part k = [] := by
  cases hfield : j.field? name with
  | none => simp [itemsAt, hfield]
  | some k =>
    rw [itemsAt_of_field? hfield, ← along_eq_nil_iff]
    exact ⟨fun h => h k rfl, by rintro h _ ⟨⟩; exact h⟩

theorem argumentClosing_eq_nil_iff :
    j.argumentClosing = [] ↔ j.given ["num", "string", "path"] = 1 ∧
      (j.gives "path" = true → j.itemsAt "path" ≠ []) := by
  unfold argumentClosing
  split
  · simp_all
  · simp_all
  · simp_all

theorem argumentViolations_eq_nil_iff (h : j.IsRecord) :
    j.argumentViolations = [] ↔ j.IsValidArgument := by
  have hparts : j.within argumentPart = [] ↔ ∀ k ∈ j.itemsAt "path", k.IsValidStep := by
    simp only [← stepViolations_eq_nil_iff, ← along_field_eq_nil_iff, within_eq_nil_iff h,
      argumentPart]
    refine ⟨fun hall k hk => by simpa using hall "path" k hk, fun hpath name k hk => ?_⟩
    split
    · next hname => exact hpath k (hname ▸ hk)
    · rfl
  rw [argumentViolations, List.append_eq_nil_iff, hparts, argumentClosing_eq_nil_iff]
  exact ⟨fun ⟨hsteps, hone, hpath⟩ => ⟨hone, hpath, hsteps⟩,
    fun hvalid => ⟨hvalid.steps, hvalid.one, hvalid.path⟩⟩

theorem operatorViolations_eq_nil_iff :
    j.operatorViolations = [] ↔ ∀ code ∈ j.code?, code ≤ 3 := by
  unfold operatorViolations
  cases j.code? <;> simp

theorem stageClosing_eq_nil_iff :
    j.stageClosing = [] ↔ (j.itemsAt "args").length = 1 ∨ (j.itemsAt "args").length = 2 := by
  unfold stageClosing
  split <;> simp_all

theorem stageViolations_eq_nil_iff (h : j.IsStageForm) :
    j.stageViolations = [] ↔ j.IsValidStage := by
  obtain ⟨args, hargs, js, rfl, hforms⟩ := h.args
  have hitems : j.itemsAt "args" = js := itemsAt_of_field? hargs
  have hop : (∀ k ∈ j.field? "op", k.operatorViolations = []) ↔
      ∀ code ∈ (j.field? "op").bind code?, code ≤ 3 := by
    simp only [operatorViolations_eq_nil_iff]
    cases j.field? "op" <;> simp
  have hall : (∀ k ∈ j.field? "args", k.along argumentViolations = []) ↔
      ∀ k ∈ j.itemsAt "args", k.IsValidArgument := by
    rw [along_field_eq_nil_iff, hitems]
    exact forall₂_congr fun k hk => argumentViolations_eq_nil_iff (hforms k hk).toIsRecord
  have hparts : j.within stagePart = [] ↔
      (∀ k ∈ j.field? "op", k.operatorViolations = []) ∧
        ∀ k ∈ j.field? "args", k.along argumentViolations = [] := by
    rw [within_eq_nil_iff h.toIsRecord]
    constructor
    · exact fun hpart => ⟨fun k => hpart "op" k, fun k => hpart "args" k⟩
    · intro ⟨hop, hargs⟩ name k hk
      unfold stagePart
      split
      · next hname => exact hop k (hname ▸ hk)
      · split
        · next hname => exact hargs k (hname ▸ hk)
        · rfl
  rw [stageViolations, List.append_eq_nil_iff, hparts, hop, hall, stageClosing_eq_nil_iff]
  exact ⟨fun ⟨⟨hop, hargs⟩, hcount⟩ => ⟨hop, hcount, hargs⟩,
    fun hvalid => ⟨⟨hvalid.op, hvalid.args⟩, hvalid.count⟩⟩

/-- The stages are the stage of the record and those of the pipeline after it, as they stand. -/
theorem memberStages_eq_flatMap (ms : List (String × Json)) :
    memberStages ms = ms.flatMap fun m =>
      if m.1 = "expression" then [m.2] else if m.1 = "pipe" then m.2.stages else [] := by
  induction ms with
  | nil => rfl
  | cons m ms ih => rw [memberStages, List.flatMap_cons, ih]

theorem mem_stages_iff (h : j.IsRecord) {k : Json} :
    k ∈ j.stages ↔ j.field? "expression" = some k ∨ ∃ l ∈ j.field? "pipe", k ∈ l.stages := by
  obtain ⟨ms, rfl, hnames⟩ := h.exists_members
  have hmem (name : String) (l : Json) : (object ms).field? name = some l ↔ (name, l) ∈ ms :=
    Fields.get?_eq_some_iff hnames
  simp only [Option.mem_def, hmem]
  rw [stages, memberStages_eq_flatMap, List.mem_flatMap]
  constructor
  · rintro ⟨⟨name, l⟩, hm, hk⟩
    split at hk
    · next hname => exact .inl (List.mem_singleton.1 hk ▸ hname ▸ hm)
    · split at hk
      · next hname => exact .inr ⟨l, hname ▸ hm, hk⟩
      · cases hk
  · rintro (hm | ⟨l, hm, hk⟩)
    · exact ⟨_, hm, List.mem_singleton.2 rfl⟩
    · exact ⟨_, hm, hk⟩

theorem gives_eq_false_iff : j.gives name = false ↔ ∀ k ∈ j.field? name, k = null := by
  unfold gives
  cases j.field? name with
  | none => simp
  | some k => cases k <;> simp [isNull]

theorem isStageForm_of_mem_stages (h : j.IsPipelineForm) : ∀ k ∈ j.stages, k.IsStageForm := by
  induction h with
  | last hj hfirst hform hpipe =>
    intro k hk
    obtain hk | ⟨l, hl, hk⟩ := (mem_stages_iff hj).1 hk
    · cases hfirst.symm.trans hk
      exact hform
    · rw [gives_eq_false_iff.1 hpipe l hl] at hk
      cases hk
  | next hj hfirst hform hpipe _ ih =>
    intro k hk
    obtain hk | ⟨l, hl, hk⟩ := (mem_stages_iff hj).1 hk
    · cases hfirst.symm.trans hk
      exact hform
    · cases hpipe.symm.trans hl
      exact ih k hk

/-- Nothing is wrong with a pipeline if nothing is wrong with its stages. -/
theorem violations_eq_nil_iff (h : j.IsPipelineForm) :
    j.violations = [] ↔ ∀ stage ∈ j.stages, stage.IsValidStage := by
  rw [violations, List.flatMap_eq_nil_iff]
  exact forall₂_congr fun stage hstage =>
    stageViolations_eq_nil_iff (isStageForm_of_mem_stages h stage hstage)

end

end Json

end DocMatch
