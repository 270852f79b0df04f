import ScoringTree.Proofs.Agreement

/-!
# ScoringTree.Proofs.Translation

What a predicate keeps when it is typed: its truth on every record, and the fields it names.

* `Predicate.typed_noteFields`    — the condition notes the fields that the predicate notes.
* `Dictionaries.typed_preserves`  — truth and fields together, over the layers of a model.
-/

namespace ScoringTree
namespace Predicate

/-- A comparison becomes a test for presence, or one with a literal of the type of the field. -/
theorem typedSimple_cases {type : SourceType} {field : String} {operator : Comparison}
    {value : Option String} {condition : Condition}
    (h : typedSimple type field operator value = .ok condition) :
    (condition = .missing field ∨ condition = .present field) ∨
      ∃ relation raw literal, condition = .compare field relation type literal ∧
        Literal.ofText type raw = .ok literal ∧
        (type = .boolean → relation.testsEquality = true) := by
  simp only [typedSimple] at h
  split at h
  · cases h
    split <;> simp
  · rename_i relation hrelation
    split at h
    · cases h
    · rename_i hordered
      split at h
      · cases h
      · rename_i raw
        split at h
        · rename_i literal hliteral
          cases h
          refine Or.inr ⟨relation, raw, literal, rfl, hliteral, ?_⟩
          intro hboolean
          simpa [hboolean] using hordered
        · cases h

theorem typedSimple_noteFields {type : SourceType} {field : String} {operator : Comparison}
    {value : Option String} {condition : Condition}
    (h : typedSimple type field operator value = .ok condition) (noted : List String) :
    condition.noteFields noted = noteName noted field := by
  rcases typedSimple_cases h with (rfl | rfl) | ⟨relation, raw, literal, rfl, -, -⟩ <;>
    simp only [Condition.noteFields]

mutual

theorem typed_noteFields {table : FieldTable} : ∀ (p : Predicate) {condition : Condition}
    {noted : List String}, p.typed table = .ok condition →
      condition.noteFields noted = p.noteFields noted
  | .always, _, _, h => by
    cases h
    simp only [Condition.noteFields, noteFields]
  | .never, _, _, h => by
    cases h
    simp only [Condition.noteFields, noteFields]
  | .simple field operator value, _, _, h => by
    simp only [typed] at h
    split at h
    · cases h
    · split at h
      · rename_i hsimple
        cases h
        rw [typedSimple_noteFields hsimple, noteFields]
      · cases h
  | .set field operator values, _, _, h => by
    simp only [typed] at h
    split at h
    · cases h
    · split at h
      · cases h
        simp only [Condition.noteFields, noteFields]
      · cases h
  | .compound operator [], _, _, h => by cases h
  | .compound operator (p :: ps), _, _, h => by
    simp only [typed] at h
    split at h
    · cases h
    · rename_i c hc
      split at h
      · cases h
      · rename_i cs hcs
        cases h
        simp only [Condition.noteFields, Condition.noteFieldsAll, noteFields, noteFieldsAll]
        rw [typed_noteFields p hc, typedAll_noteFields ps hcs]

theorem typedAll_noteFields {table : FieldTable} : ∀ (ps : List Predicate)
    {conditions : List Condition} {noted : List String}, typedAll table ps = .ok conditions →
      Condition.noteFieldsAll noted conditions = noteFieldsAll noted ps
  | [], _, _, h => by
    cases h
    simp only [Condition.noteFieldsAll, noteFieldsAll]
  | p :: ps, _, _, h => by
    simp only [typedAll] at h
    split at h
    · cases h
    · rename_i c hc
      split at h
      · cases h
      · rename_i cs hcs
        cases h
        simp only [Condition.noteFieldsAll, noteFieldsAll]
        rw [typed_noteFields p hc, typedAll_noteFields ps hcs]

end

end Predicate

namespace Dictionaries

/-- Over layers that can be resolved, a predicate that can be typed at some node has a truth on every
record. The truth is the value of the condition, also where texts are ordered by code units unless
one of them straddles, and the condition names the same fields in the same order. -/
theorem typed_preserves {layers : Dictionaries} {table : FieldTable}
    (hresolve : layers.resolve = .ok table) (model : String) {p : Predicate} {path : String}
    {condition : Condition} (htyped : p.typedAt table model path = .ok condition)
    (record : Record) :
    ∃ types t, layers.typesFor model = .ok types ∧ p.evaluate types record = .ok t ∧
      condition.value compare record = t.boxed ∧
      (condition.straddles record = false →
        condition.value Text.compareUnits record = t.boxed) ∧
      condition.fields = p.fields := by
  obtain ⟨types, htypes, hmatch⟩ := resolve_fieldTypes hresolve
  have hcondition := Tree.typedAt_ok htyped
  obtain ⟨t, ht, hvalue⟩ := Predicate.evaluate_typed hmatch record p condition hcondition
  refine ⟨types, t, by simp [typesFor, htypes], ht, hvalue, ?_, ?_⟩
  · intro hplain
    rw [Condition.value_units hplain, hvalue]
  · rw [Condition.fields, Predicate.fields, Predicate.typed_noteFields p hcondition]

/-- A compound of tests on both fields, the inner one with a test for presence. -/
def nestedTests : Predicate :=
  .compound .or [.set "zip" .isNotIn ["x", "y"],
    .compound .surrogate [.simple "region" .lessThan (some "m"), .simple "zip" .isMissing none]]

def nestedCondition : Condition :=
  .compound .or [.member "zip" .string [.text "x", .text "y"] true,
    .compound .surrogate [.compare "region" .lt .string (.text "m"), .missing "zip"]]

theorem typed_preserves_nested :
    (shadowed "text").resolve = .ok (shadowedTable .text) ∧
      nestedTests.typedAt (shadowedTable .text) "m" "0/1" = .ok nestedCondition ∧
      ∃ types, (shadowed "text").typesFor "m" = .ok types ∧
        nestedTests.evaluate types [("zip", .string "x")] = .ok .false ∧
        nestedCondition.fields = nestedTests.fields := by
  have hresolve := shadowed_resolve FieldType.read_text
  have htyped : nestedTests.typedAt (shadowedTable .text) "m" "0/1" = .ok nestedCondition := rfl
  obtain ⟨types, t, htypes, ht, hvalue, -, hfields⟩ :=
    typed_preserves hresolve "m" htyped [("zip", .string "x")]
  have htruth : t = .false := by
    apply Truth.boxed_injective
    rw [← hvalue]
    decide +kernel
  exact ⟨hresolve, htyped, types, htypes, by rw [ht, htruth], hfields⟩

end Dictionaries
end ScoringTree
