import DocMatch.Document
import DocMatch.Proofs.Fields
import DocMatch.Proofs.Interchange.RoundTrip
import DocMatch.Proofs.Json.Floats

/-!
Document values written as JSON and read again. A value has nothing that a JSON text cannot hold,
but for numbers that are none, and no more levels than are read are asked for; its mappings never
have two entries of one name. Integers and floating point numbers are told apart by the point that
only the latter have, and minus zero by its sign.

    integer 1          1           float 1           1.0
    integer 0          0           float -0          -0.0
    integer 2^63-1     9223372036854775807
    float 2^63         9.223372036854776e+18
-/

namespace DocMatch

namespace Value

mutual

/-- Whether the entries of every mapping have distinct names. -/
def hasDistinctNames : Value → Bool
  | sequence items => itemsHaveDistinctNames items
  | mapping fields => decide (Fields.names fields).Nodup && fieldsHaveDistinctNames fields
  | _ => true

def itemsHaveDistinctNames : List Value → Bool
  | [] => true
  | v :: rest => v.hasDistinctNames && itemsHaveDistinctNames rest

def fieldsHaveDistinctNames : List (String × Value) → Bool
  | [] => true
  | (_, v) :: rest => v.hasDistinctNames && fieldsHaveDistinctNames rest

end

end Value

namespace Draft

open Json Value

mutual

/-- The draft of a value is that value, if no number in it is too large and no level too deep. -/
theorem toValue_ofJson (v : Value) (limit : Nat)
    (hfinite : ∀ x ∈ v.toJson.floats, x.isFinite = true) (hnames : v.hasDistinctNames = true)
    (hdepth : v.toJson.depth ≤ limit) : (ofJson v.toJson).toValue limit = .ok v := by
  cases v with
  | null => rfl
  | boolean b => rfl
  | integer n =>
    rw [Value.toJson, ofJson, toValue, Literal.ofInt_toInt]
    rfl
  | float x =>
    rw [Value.toJson, ofJson, toValue, checkedLiteral, if_pos (hfinite x List.mem_cons_self)]
    rfl
  | string s => rfl
  | sequence items =>
    have hlimit : itemsDepth (itemsToJson items) + 1 ≤ limit := hdepth
    have hitems := toItems_ofItems items (limit - 1) hfinite hnames (by omega)
    rw [Value.toJson, ofJson, toValue, if_neg (by omega), hitems]
    rfl
  | mapping fields =>
    have hlimit : membersDepth (fieldsToJson fields) + 1 ≤ limit := hdepth
    obtain ⟨hnodup, hnames⟩ := Bool.and_eq_true_iff.1 hnames
    have hfields := toFields_ofMembers fields (limit - 1) hfinite hnames (by omega)
    rw [Value.toJson, ofJson, toValue, if_neg (by omega), hfields]
    exact congrArg (fun fields => Except.ok (Value.mapping fields))
      (Fields.ofList_of_nodup (of_decide_eq_true hnodup))
termination_by structural v

theorem toItems_ofItems (items : List Value) (limit : Nat)
    (hfinite : ∀ x ∈ itemsFloats (itemsToJson items), x.isFinite = true)
    (hnames : itemsHaveDistinctNames items = true)
    (hdepth : itemsDepth (itemsToJson items) ≤ limit) :
    toItems limit (ofItems (itemsToJson items)) = .ok items := by
  cases items with
  | nil => rfl
  | cons v rest =>
    obtain ⟨hv, hrest⟩ := List.forall_mem_append.1 hfinite
    obtain ⟨hvnames, hrestnames⟩ := Bool.and_eq_true_iff.1 hnames
    obtain ⟨hvdepth, hrestdepth⟩ := Nat.max_le.1 hdepth
    rw [itemsToJson, ofItems, toItems, toValue_ofJson v limit hv hvnames hvdepth,
      toItems_ofItems rest limit hrest hrestnames hrestdepth]
    rfl
termination_by structural items

theorem toFields_ofMembers (fields : List (String × Value)) (limit : Nat)
    (hfinite : ∀ x ∈ membersFloats (fieldsToJson fields), x.isFinite = true)
    (hnames : fieldsHaveDistinctNames fields = true)
    (hdepth : membersDepth (fieldsToJson fields) ≤ limit) :
    toFields limit (ofMembers (fieldsToJson fields)) = .ok fields := by
  cases fields with
  | nil => rfl
  | cons field rest =>
    cases field with
    | mk name v =>
      obtain ⟨hv, hrest⟩ := List.forall_mem_append.1 hfinite
      obtain ⟨hvnames, hrestnames⟩ := Bool.and_eq_true_iff.1 hnames
      obtain ⟨hvdepth, hrestdepth⟩ := Nat.max_le.1 hdepth
      rw [fieldsToJson, ofMembers, toFields, toValue_ofJson v limit hv hvnames hvdepth,
        toFields_ofMembers rest limit hrest hrestnames hrestdepth]
      rfl
termination_by structural fields

end

end Draft

namespace Value

/-- A text that is read as the tree of a value is read as the value. -/
theorem ofText_of_read {v : Value} {text : List Char}
    (hfinite : ∀ x ∈ v.toJson.floats, x.isFinite = true) (hnames : v.hasDistinctNames = true)
    (hdepth : v.toJson.depth ≤ nestingLimit)
    (h : Draft.read text = (Draft.ofJson v.toJson, some [])) :
    ofText .json (String.ofList text) = .ok v := by
  rw [ofText, ofJsonText, String.toList_ofList, h]
  dsimp only
  rw [Draft.toValue_ofJson v nestingLimit hfinite hnames hdepth]
  rfl

/-- A document without infinite numbers that is not nested too deeply is written as JSON, compact or
in lines, so that it reads back as itself; its numbers are rounded once, so each is read as the
number that was written. -/
theorem ofText_json_toJson (v : Value) (hfinite : ∀ x ∈ v.toJson.floats, x.isFinite = true)
    (hnames : v.hasDistinctNames = true) (hdepth : v.toJson.depth ≤ nestingLimit) :
    ofText .json v.toJson.toText = .ok v ∧ ofText .json v.toJson.toPrettyText = .ok v := by
  have hfloats : ∀ x ∈ v.toJson.floats, Json.ReadsBack x := fun x hx =>
    Json.readsBack_of_isFinite (hfinite x hx)
  exact ⟨ofText_of_read hfinite hnames hdepth (Draft.read_compact hfloats),
    ofText_of_read hfinite hnames hdepth (Draft.read_pretty hfloats 0)⟩

/-- Zeros of both signs, one and two to the sixty-third as either kind of number, the least number
above zero, and texts with marks, controls and nothing in them. -/
theorem ofText_json_toJson_marks :
    let v := mapping [("", sequence []), ("\"\\\x01\n😀", mapping []),
      ("n", sequence [integer 0, float (Binary64.zero true), float (Binary64.zero false),
        integer 1, float (Binary64.ofInt 1), integer Int64.maxValue, integer Int64.minValue,
        float (Binary64.ofInt 9223372036854775808), float (Binary64.ofRank false 1)]),
      ("null", sequence [null, boolean true, string "null", mapping [("n", string "\x7f")]])]
    ofText .json v.toJson.toText = .ok v ∧ ofText .json v.toJson.toPrettyText = .ok v :=
  ofText_json_toJson _ (by decide +kernel) (by decide +kernel) (by decide +kernel)

end Value

end DocMatch
