import DocMatch.Proofs.Resolve.Reach

/-!
What a result sees of the document. Only first stages look at it, and one that goes down at least
two steps takes nothing with it but the entry by which it goes:

    document    {a: {b: [r, s]}, k: …}
    first stage a.b.c == "1"         sees the entry a        {a: {b: [r]}}
    first stage matchers.x == a.0    sees the entry a        x with the entry a.0 as literal
    first stage a                    takes the document as it is, with k

So an entry that no first stage names, in a matcher or in what it reaches, makes no difference,
whether it is missing or has another value.
-/

namespace DocMatch

namespace Fields

variable {α : Type}

/-- Entries that agree under every name but one. -/
def AgreeBut (key : String) (fields other : Fields α) : Prop :=
  ∀ name, name ≠ key → get? name fields = get? name other

/-- Entries with perhaps one more at some place among them. -/
def around (before after : Fields α) (key : String) (v? : Option α) : Fields α :=
  before ++ (v?.map (key, ·)).toList ++ after

theorem agreeBut_around (before after : Fields α) (key : String) (u? v? : Option α) :
    AgreeBut key (around before after key u?) (around before after key v?) := by
  intro name hname
  have hskip : ∀ w? : Option α, get? name (w?.map (key, ·)).toList = none := by
    intro w?
    cases w? with
    | none => rfl
    | some w => exact if_neg (Ne.symm hname)
  simp only [around, get?_append, hskip]

end Fields

/-! ### Two documents that agree but for one entry -/

/-- A path that begins by a name. -/
def Path.BeginsWith (path : Path) (key : String) : Prop := [.key key] <+: path

instance (path : Path) (key : String) : Decidable (path.BeginsWith key) :=
  inferInstanceAs (Decidable (_ <+: path))

namespace Value

variable {key : String} {fields other : Fields Value}

theorem descend_eq_of_agreeBut (h : Fields.AgreeBut key fields other) {step : Step}
    (hstep : step ≠ .key key) : (mapping fields).descend step = (mapping other).descend step := by
  cases step with
  | index i => rfl
  | key name =>
    have hname : name ≠ key := fun heq => hstep (congrArg Step.key heq)
    rw [descend, descend, h name hname]

theorem navigate_eq_of_agreeBut (h : Fields.AgreeBut key fields other) {step : Step} {path : Path}
    (hstep : step ≠ .key key) :
    (mapping fields).navigate (step :: path) = (mapping other).navigate (step :: path) := by
  rw [navigate, navigate, descend_eq_of_agreeBut h hstep]

theorem walk_eq_of_agreeBut (h : Fields.AgreeBut key fields other)
    (edit : Step → Value → Except WalkError Value) {step next : Step} {path : Path}
    (hstep : step ≠ .key key) :
    (mapping fields).walk edit (step :: next :: path) =
      (mapping other).walk edit (step :: next :: path) := by
  rw [walk, walk, descend_eq_of_agreeBut h hstep]

end Value

section

variable {key : String} {fields other : Fields Value}

/-- An operator that goes down at least two steps makes the same of both documents. -/
theorem Operator.apply_eq_of_agreeBut (h : Fields.AgreeBut key fields other) (op : Operator)
    (l? : Option Literal) {path : Path} (hkey : ¬ path.BeginsWith key) (hlong : 2 ≤ path.length) :
    op.apply l? (.mapping fields) path = op.apply l? (.mapping other) path := by
  match path with
  | [] | [_] => simp at hlong
  | step :: next :: rest =>
    have hstep : step ≠ .key key := by
      rintro rfl
      exact hkey ⟨next :: rest, rfl⟩
    simp only [apply, Value.select, Value.filter, Value.replace, List.isEmpty_cons,
      Value.navigate_eq_of_agreeBut h hstep, Value.walk_eq_of_agreeBut h _ hstep]
    rfl

/-- A right argument stands for the same literal in both documents. -/
theorem Argument.evaluate_eq_of_agreeBut (h : Fields.AgreeBut key fields other)
    (g : String → Except EvalError Value) {a : Argument}
    (hkey : ∀ path ∈ a.path?, ¬ path.BeginsWith key) :
    a.evaluate g (.mapping fields) = a.evaluate g (.mapping other) := by
  cases a with
  | literal l => rfl
  | path p =>
    rcases p.source_cases with ⟨name, rest, rfl, hs⟩ | ⟨_, hs⟩ | ⟨_, hs⟩
    · rw [evaluate, evaluate, Path.locate, Path.locate, hs]
    · rw [evaluate, evaluate, Path.locate, Path.locate, hs]
    · rw [evaluate, evaluate, Path.locate, Path.locate, hs]
      cases p with
      | nil => rfl
      | cons step rest =>
        have hstep : step ≠ .key key := by
          rintro rfl
          exact hkey _ rfl ⟨rest, rfl⟩
        simp only [pure_bind, Value.navigate_eq_of_agreeBut h hstep]

/-- A stage that takes nothing of an entry of its input: no path of it begins with the name of the
entry, and its left path refers to a matcher or goes down at least two steps. -/
structure Stage.Spares (stage : Stage) (key : String) : Prop where
  left : ∀ path ∈ stage.left.path?, (∃ name, path.RefersTo name) ∨ 2 ≤ path.length
  paths : ∀ path ∈ stage.paths, ¬ path.BeginsWith key

/-- A stage makes the same of two documents that agree but for an entry that it spares. -/
theorem Stage.run_eq_of_agreeBut (h : Fields.AgreeBut key fields other)
    (g : String → Except EvalError Value) {stage : Stage} (hspares : stage.Spares key) :
    stage.run g (.mapping fields) = stage.run g (.mapping other) := by
  unfold run
  cases hp : stage.target with
  | error e => rfl
  | ok p =>
    have hright : stage.literal? g (.mapping fields) = stage.literal? g (.mapping other) := by
      unfold literal?
      cases hr : stage.right with
      | none => rfl
      | some right =>
        have hkey : ∀ path ∈ right.path?, ¬ path.BeginsWith key := fun path hpath =>
          hspares.paths path ((mem_paths hp).2 (Or.inr ⟨right, hr, hpath⟩))
        simp only [Argument.evaluate_eq_of_agreeBut h g hkey]
    simp only [hright]
    refine congrArg _ (funext fun l? => ?_)
    rcases p.source_cases with ⟨name, rest, rfl, hs⟩ | ⟨_, hs⟩ | ⟨hno, hs⟩
    · rw [Path.locate, Path.locate, hs]
    · rw [Path.locate, Path.locate, hs]
    · -- the path is followed on the document itself, so it is not a reference
      have hlong : 2 ≤ p.length := by
        refine (hspares.left p (by rw [left_of_target hp]; rfl)).resolve_left ?_
        rintro ⟨name, rest, rfl⟩
        exact hno ⟨_, rfl⟩
      have hkey := hspares.paths p ((mem_paths hp).2 (Or.inl rfl))
      rw [Path.locate, Path.locate, hs]
      exact congrArg EvalError.ofWalk (stage.operator.apply_eq_of_agreeBut h l? hkey hlong)

/-- A pipeline makes the same of them, whatever its later stages are. -/
theorem Pipeline.run_eq_of_agreeBut (h : Fields.AgreeBut key fields other)
    (g : String → Except EvalError Value) {p : Pipeline} (hspares : p.first.Spares key) :
    p.run g (.mapping fields) = p.run g (.mapping other) := by
  show (p.first.run g (.mapping fields) >>= _) = (p.first.run g (.mapping other) >>= _)
  rw [Stage.run_eq_of_agreeBut h g hspares]

end

namespace Matchers

variable {matchers : Matchers} {key : String} {fields other : Fields Value} {name : String}

/-- In every chain a name has the same value over two documents that agree but for an entry that all
first stages spare in what the name reaches. -/
theorem valueIn_eq_of_agreeBut (h : Fields.AgreeBut key fields other) (chain : List String)
    (hspares : ∀ x p, Relation.ReflTransGen matchers.RefersTo name x → matchers.get? x = some p →
      p.first.Spares key) :
    matchers.valueIn (.mapping fields) chain name =
      matchers.valueIn (.mapping other) chain name := by
  induction chain using chain_induction matchers generalizing name with
  | step chain ih =>
    by_cases hc : name ∈ chain
    · rw [valueIn_of_mem hc, valueIn_of_mem hc]
    · cases hp : matchers.get? name with
      | none => rw [valueIn_of_unknown hc hp, valueIn_of_unknown hc hp]
      | some p =>
        rw [valueIn_of_declared hc hp, valueIn_of_declared hc hp]
        -- the answers first, which are those of longer chains, and then the first stage
        refine Eq.trans ?_ (Pipeline.run_eq_of_agreeBut h _ (hspares name p .refl hp))
        refine Pipeline.run_congr fun x hx => ih name p hp hc ?_
        exact fun y q hy => hspares y q (.head ⟨p, hp, hx⟩ hy)

/-- Data that is not selected has no influence. If the first stages of a name and of all that it
reaches spare an entry of the document, then the name has the same result, value or error, whether
the document has the entry or not, and whatever its value is. -/
theorem fresh_eq_of_spared (before after : Fields Value) (u? v? : Option Value)
    (h : ∀ x p, Relation.ReflTransGen matchers.RefersTo name x → matchers.get? x = some p →
      p.first.Spares key) :
    matchers.fresh (.mapping (Fields.around before after key u?)) name =
      matchers.fresh (.mapping (Fields.around before after key v?)) name := by
  rw [fresh_eq_valueIn, fresh_eq_valueIn]
  exact valueIn_eq_of_agreeBut (Fields.agreeBut_around before after key u? v?) [] h

/-- A matcher that compares with another entry and then takes all it has, and one that refers to
it. -/
def devices : Matchers :=
  [("gw", ⟨⟨.filter, .path [.key "routes", .key "dev"], some (.path [.key "default"])⟩,
      [⟨.filter, .path [.key "routes"], none⟩]⟩),
    ("dev", ⟨⟨.filter, .path [.key referenceWord, .key "gw", .key "routes", .index 0, .key "dev"],
      none⟩, []⟩)]

/-- An entry between the two that are compared makes no difference. -/
theorem fresh_eq_of_spared_between :
    let before : Fields Value := [("routes", .sequence [.mapping [("dev", .string "br")]])]
    let after : Fields Value := [("default", .string "br")]
    (∀ x p, Relation.ReflTransGen devices.RefersTo "dev" x → devices.get? x = some p →
      p.first.Spares "interfaces") ∧
    devices.fresh (.mapping (before ++ after)) "dev" = .ok (.string "br") ∧
    devices.fresh (.mapping (before ++ ("interfaces", .sequence []) :: after)) "dev" =
      .ok (.string "br") := by
  intro before after
  have hspares : ∀ x p, Relation.ReflTransGen devices.RefersTo "dev" x → devices.get? x = some p →
      p.first.Spares "interfaces" := by
    intro x p hreach hp
    have hmem := Fields.mem_of_get? hp
    simp only [devices, List.mem_cons, Prod.mk.injEq, List.not_mem_nil, or_false] at hmem
    rcases hmem with ⟨_, rfl⟩ | ⟨_, rfl⟩
    · exact ⟨by rintro _ ⟨⟩; exact Or.inr (by decide), by decide⟩
    · exact ⟨by rintro _ ⟨⟩; exact Or.inl ⟨"gw", by decide⟩, by decide⟩
  have hwithout : devices.fresh (.mapping (before ++ after)) "dev" = .ok (.string "br") := by cbv
  have heq := fresh_eq_of_spared before after none (some (.sequence [])) hspares
  exact ⟨hspares, hwithout, heq.symm.trans hwithout⟩

/-- A bare path of one step takes the document as it is. -/
example : Matchers.fresh [("a", ⟨⟨.filter, .path [.key "x"], none⟩, []⟩)]
    (.mapping [("x", .sequence []), ("k", .null)]) "a" =
      .ok (.mapping [("x", .sequence []), ("k", .null)]) := by
  cbv

end Matchers

end DocMatch
