import DocMatch.Proofs.Yaml.Trees

/-!
Which JSON documents are YAML. A JSON text whose pieces and names are as YAML wants them, which can
be seen without reading it as YAML, is the same value in both formats; so a document of unknown
format can be read as YAML. Not every JSON text is like that: each condition is needed.

    {"a": [1, -2.5e3, "\u00e9"]}        the same value
    {"a": 1, "a": 2}                    a value of JSON, but no YAML
-/

namespace DocMatch

open Json

namespace Value

mutual

/-- Equality of values, part by part. -/
def same : Value → Value → Bool
  | null, null => true
  | boolean a, boolean b => a == b
  | integer m, integer n => m == n
  | float x, float y => x == y
  | string s, string t => s == t
  | sequence xs, sequence ys => sameItems xs ys
  | mapping xs, mapping ys => sameFields xs ys
  | _, _ => false

def sameItems : List Value → List Value → Bool
  | [], [] => true
  | v :: vs, w :: ws => same v w && sameItems vs ws
  | _, _ => false

def sameFields : List (String × Value) → List (String × Value) → Bool
  | [], [] => true
  | (m, v) :: vs, (n, w) :: ws => m == n && same v w && sameFields vs ws
  | _, _ => false

end

mutual

theorem same_iff (v w : Value) : v.same w = true ↔ v = w := by
  cases v with
  | sequence xs =>
    cases w with
    | sequence ys => rw [same, sameItems_iff, sequence.injEq]
    | _ => simp [same]
  | mapping xs =>
    cases w with
    | mapping ys => rw [same, sameFields_iff, mapping.injEq]
    | _ => simp [same]
  | _ => cases w <;> simp [same]

theorem sameItems_iff (vs ws : List Value) : sameItems vs ws = true ↔ vs = ws := by
  cases vs with
  | nil => cases ws <;> simp [sameItems]
  | cons v vs =>
    cases ws with
    | nil => simp [sameItems]
    | cons w ws => rw [sameItems, Bool.and_eq_true, same_iff, sameItems_iff, List.cons.injEq]

theorem sameFields_iff (vs ws : List (String × Value)) : sameFields vs ws = true ↔ vs = ws := by
  cases vs with
  | nil => cases ws <;> simp [sameFields]
  | cons field vs =>
    cases field with
    | mk m v =>
      cases ws with
      | nil => simp [sameFields]
      | cons field ws =>
        cases field with
        | mk n w =>
          rw [sameFields, Bool.and_eq_true, Bool.and_eq_true, beq_iff_eq, same_iff,
            sameFields_iff, List.cons.injEq, Prod.mk.injEq]

end

instance : DecidableEq Value := fun v w => decidable_of_iff _ (same_iff v w)

theorem ofText_eq_ok_iff {format : Format} {text : String} {v : Value} {rounding : Rounding} :
    ofText format text rounding = .ok v ↔ (ofText format text rounding).toOption = some v := by
  cases ofText format text rounding <;> simp [Except.toOption]

theorem ofText_yaml_eq_error {text : String} {fault : YamlFault}
    (h : faultOf? (Yaml.Node.ofText text) = some fault) :
    ofText .yaml text = .error (.yaml fault) := by
  rw [ofText, faultOf?_eq_some_iff.mp h]
  rfl

/-- A portable JSON text is the same value in YAML, whether its numbers are rounded once or in
steps. -/
theorem ofText_yaml_of_json {text : String} {v : Value} {rounding : Rounding}
    (h : ofText .json text rounding = .ok v) (hportable : IsPortable text) :
    ofText .yaml text = .ok v := by
  have honce : ofText .json text .once = .ok v := ofText_json_of_roundsAlike h hportable.rounded
  obtain ⟨x, last, htext, hread, hv⟩ := exists_script_of_json honce
  obtain ⟨hpieces, -⟩ := piecesOf_eq htext
  have hdistinct : x.draft.hasDistinctNames = true := by
    have := hportable.distinct
    rwa [hread] at this
  have hdepth : nestingLimit ≤ Yaml.Tree.depthLimit := by decide
  obtain ⟨node, hnode, hvalue⟩ : ∃ node, Yaml.Tree.expandWithin x.tree.anchors
      Yaml.Tree.depthLimit false x.tree = pure node ∧ node.toValue = .ok v :=
    Yaml.Tree.exists_expanded x (hpieces ▸ hportable.pieces) hdistinct hdepth hv
  have hyaml : Yaml.Node.ofText text = .ok node := by
    rw [Yaml.Node.ofText, Yaml.Tree.ofText, Yaml.Token.ofText_of_script htext hportable]
    simp only [bind, Except.bind, Yaml.Tree.ofTokens_script, Yaml.Tree.expand, hnode]
    rfl
  rw [ofText, hyaml]
  simp only [bind, Except.bind, Except.mapError, hvalue]

/-- A document with members, items, blanks and escapes is the same value in both formats. -/
theorem ofText_yaml_of_json_members :
    let text := "\x7b\"a\": [1, -2.5e3, \"\\u00e9\"],\n \"b\": \x7b\"\": null\x7d \x7d\n"
    let v := mapping [("a", sequence [integer 1, float (Binary64.ofInt (-2500)), string "é"]),
      ("b", mapping [("", null)])]
    (ofText .json text .inSteps = .ok v ∧ IsPortable text) ∧ ofText .yaml text = .ok v := by
  intro text v
  have hjson : ofText .json text .inSteps = .ok v := by
    rw [ofText_eq_ok_iff]
    decide +kernel
  have hportable : IsPortable text := by decide +kernel
  exact ⟨⟨hjson, hportable⟩, ofText_yaml_of_json hjson hportable⟩

/-- Not every JSON text is YAML. A pair of surrogates is a character in JSON and refused in YAML,
minus zero has another meaning in YAML, a number rounded in steps can become its neighbour, a
separator loses the blanks around it, and each of the other texts is refused as well, for one
condition of `IsPortable` that it does not meet. -/
theorem ofText_yaml_of_json_not_always :
    (ofText .json "\"\\ud83d\\ude00\"" .inSteps = .ok (string "😀") ∧
      ofText .yaml "\"\\ud83d\\ude00\"" = .error (.yaml .badEscape)) ∧
    (ofText .json "-0" .inSteps = .ok (float (Binary64.zero true)) ∧
      ofText .yaml "-0" = .ok (integer 0)) ∧
    (ofText .json "9007199254740993.0" .inSteps = .ok (float (Binary64.ofInt 9007199254740994)) ∧
      ofText .yaml "9007199254740993.0" = .ok (float (Binary64.ofInt 9007199254740992))) ∧
    (ofText .json "\"a \u2028 b\"" .inSteps = .ok (string "a \u2028 b") ∧
      ofText .yaml "\"a \u2028 b\"" = .ok (string "a\u2028b")) ∧
    ∀ p ∈ [("18446744073709551616", YamlFault.outOfRange), ("\"\x7f\"", .controlCharacter),
        ("\x7b\"a\"\n:1\x7d", .unexpectedToken), ("\t\x7b\x7d", .unexpectedCharacter),
        ("\x7b\x7d\n\t", .unexpectedCharacter), ("\x7b\"a\":1,\"a\":2\x7d", .duplicateKey)],
      (ofText .json p.1 .inSteps).isOk = true ∧ ofText .yaml p.1 = .error (.yaml p.2) := by
  have hrefused : ∀ p ∈ [("\"\\ud83d\\ude00\"", YamlFault.badEscape),
      ("18446744073709551616", .outOfRange), ("\"\x7f\"", .controlCharacter),
      ("\x7b\"a\"\n:1\x7d", .unexpectedToken), ("\t\x7b\x7d", .unexpectedCharacter),
      ("\x7b\x7d\n\t", .unexpectedCharacter), ("\x7b\"a\":1,\"a\":2\x7d", .duplicateKey)],
      (ofText .json p.1 .inSteps).isOk = true ∧ faultOf? (Yaml.Node.ofText p.1) = some p.2 := by
    decide +kernel
  simp only [ofText_eq_ok_iff]
  refine ⟨⟨by decide +kernel, ?_⟩, by decide +kernel, by decide +kernel, by decide +kernel,
    fun p hp => ?_⟩
  · exact ofText_yaml_eq_error (hrefused _ (List.mem_cons_self ..)).2
  · obtain ⟨hjson, hyaml⟩ := hrefused p (List.mem_cons_of_mem _ hp)
    exact ⟨hjson, ofText_yaml_eq_error hyaml⟩

end Value

end DocMatch
