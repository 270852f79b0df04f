import ScoringTree.Proofs.HelperReading
import ScoringTree.Proofs.Translation

/-!
# ScoringTree.Proofs.HelperAgreement

The answers of the helpers of generated source, which read and order texts in their own way, against
the truths of the interpreter.

* `Condition.answer`   — the value of a condition with the readings and the order of the helpers.
* `Condition.parts`    — a test of the condition is on a text that the two sides read or order
                         otherwise.
* `Dictionaries.helpers_agree`
                       — the answer is the truth where no test parts; a single test has another
                         answer exactly where it parts.
-/

namespace ScoringTree

/-! ## Answers of helpers -/

/-- A text as the helper of a type reads it. -/
def Helper.read? : SourceType → String → Option Scalar
  | .double, s => (number s).map .number
  | .string, s => some (.text s)
  | .boolean, s => (flag s).map .flag

/-- The two sides read a text in different ways. -/
def Helper.misreads : SourceType → String → Bool
  | .double, s => partsNumber s
  | .string, _ => false
  | .boolean, s => partsFlag s

namespace Record

/-- The value of a field as a helper reads it. Values that are no texts are left to the reading of
the interpreter. -/
def helperRead? (record : Record) (type : SourceType) (field : String) : Option Scalar :=
  match record.value? field with
  | some (.string s) => Helper.read? type s
  | _ => record.read? type field

def misreads (record : Record) (type : SourceType) (field : String) : Bool :=
  match record.value? field with
  | some (.string s) => Helper.misreads type s
  | _ => false

end Record

namespace Condition

mutual

def answer (record : Record) : Condition → Option Bool
  | .compare field relation type literal =>
    (record.helperRead? type field).bind fun actual =>
      Helper.test Text.compareUnits relation actual literal
  | .missing field => some (record.value? field).isNone
  | .present field => some (record.value? field).isSome
  | .member field type values negated =>
    (record.helperRead? type field).map fun actual => values.any (Helper.same actual) != negated
  | .compound operator operands => Helper.connective operator (answerAll record operands)
  | .constant b => some b

def answerAll (record : Record) : List Condition → List (Option Bool)
  | [] => []
  | c :: cs => answer record c :: answerAll record cs

end

mutual

/-- A test of the condition is on a text that the two sides read in different ways. -/
def misreads (record : Record) : Condition → Bool
  | .compare field _ type _ => record.misreads type field
  | .member field type _ _ => record.misreads type field
  | .compound _ operands => misreadsAny record operands
  | _ => false

def misreadsAny (record : Record) : List Condition → Bool
  | [] => false
  | c :: cs => misreads record c || misreadsAny record cs

end

/-- A test of the condition is on a text that the two sides read or order in different ways. -/
def parts (record : Record) (condition : Condition) : Bool :=
  condition.misreads record || condition.straddles record

end Condition

/-! ## Readings of records -/

theorem Helper.read?_isSome_iff (type : SourceType) (s : String) :
    (Scalar.ofJson? type.fieldType (.string s)).isSome = (read? type s).isSome ↔
      misreads type s = false := by
  cases type with
  | double =>
    have h := numberReadings.isSome_eq_iff s.toList
    simp only [SourceType.fieldType, Scalar.ofJson?, read?, Option.isSome_map]
    exact h
  | string => simp [SourceType.fieldType, Scalar.ofJson?, read?, misreads]
  | boolean =>
    have h := wordReadings.isSome_eq_iff s.toList
    simp only [SourceType.fieldType, Scalar.ofJson?, read?, Option.isSome_map]
    exact h

theorem Helper.read?_eq {type : SourceType} {s : String} (h : misreads type s = false) :
    read? type s = Scalar.ofJson? type.fieldType (.string s) := by
  cases type with
  | double =>
    rw [read?, ← (number_eq_iff s).mpr h]
    rfl
  | string => rfl
  | boolean =>
    rw [read?, ← (flag_eq_iff s).mpr h]
    rfl

namespace Record

variable {record : Record} {type : SourceType} {field : String}

theorem helperRead?_eq (h : record.misreads type field = false) :
    record.helperRead? type field = record.read? type field := by
  simp only [misreads] at h
  simp only [helperRead?]
  split at h
  · rename_i s hs
    rw [read?, hs]
    exact Helper.read?_eq h
  · rfl

theorem helperRead?_isSome_ne (h : record.misreads type field = true) :
    (record.helperRead? type field).isSome ≠ (record.read? type field).isSome := by
  simp only [misreads] at h
  split at h
  · rename_i s hs
    simp only [helperRead?, read?, hs, Option.bind_some]
    intro heq
    have := (Helper.read?_isSome_iff type s).mp heq.symm
    rw [h] at this
    cases this
  · cases h

end Record

/-! ## Conditions -/

namespace Condition

variable {record : Record}

mutual

theorem answer_eq_value : ∀ c : Condition, c.misreads record = false →
    c.answer record = c.value Text.compareUnits record
  | .compare field relation type literal, h => by
    simp only [misreads] at h
    simp only [answer, value, Record.helperRead?_eq h]
  | .missing field, _ => by simp only [answer, value]
  | .present field, _ => by simp only [answer, value]
  | .member field type values negated, h => by
    simp only [misreads] at h
    simp only [answer, value, Record.helperRead?_eq h]
  | .compound operator operands, h => by
    simp only [misreads] at h
    simp only [answer, value, answerAll_eq_valueAll operands h]
  | .constant b, _ => by simp only [answer, value]

theorem answerAll_eq_valueAll : ∀ cs : List Condition, misreadsAny record cs = false →
    answerAll record cs = valueAll Text.compareUnits record cs
  | [], _ => by simp only [answerAll, valueAll]
  | c :: cs, h => by
    simp only [misreadsAny, Bool.or_eq_false_iff] at h
    simp only [answerAll, valueAll, answer_eq_value c h.1, answerAll_eq_valueAll cs h.2]

end

end Condition

/-! ## Single tests -/

namespace Scalar

def sourceType : Scalar → SourceType
  | .number _ => .double
  | .text _ => .string
  | .flag _ => .boolean

theorem sourceType_ofJson? {type : SourceType} {value : Json} {actual : Scalar}
    (h : ofJson? type.fieldType value = some actual) : actual.sourceType = type := by
  cases type with
  | double =>
    cases value <;> simp only [SourceType.fieldType, ofJson?, Option.map_eq_some_iff,
      Option.some.injEq, reduceCtorEq] at h
    · subst h
      rfl
    · obtain ⟨x, -, rfl⟩ := h
      rfl
  | string =>
    cases h
    rfl
  | boolean =>
    cases value <;> simp only [SourceType.fieldType, ofJson?, Option.map_eq_some_iff,
      Option.some.injEq, reduceCtorEq] at h
    · subst h
      rfl
    · obtain ⟨b, -, rfl⟩ := h
      rfl

end Scalar

namespace Record

variable {record : Record} {type : SourceType} {field : String} {actual : Scalar}

theorem sourceType_read? (h : record.read? type field = some actual) :
    actual.sourceType = type := by
  obtain ⟨value, -, hof⟩ := Option.bind_eq_some_iff.mp h
  exact Scalar.sourceType_ofJson? hof

theorem sourceType_helperRead? (h : record.helperRead? type field = some actual) :
    actual.sourceType = type := by
  simp only [helperRead?] at h
  split at h
  · cases type with
    | double =>
      obtain ⟨x, -, rfl⟩ := Option.map_eq_some_iff.mp h
      rfl
    | string =>
      cases h
      rfl
    | boolean =>
      obtain ⟨b, -, rfl⟩ := Option.map_eq_some_iff.mp h
      rfl
  · exact sourceType_read? h

end Record

/-- There is a helper for a value and a literal of one type, unless flags are to be ordered. -/
theorem Helper.test_isSome {type : SourceType} {actual : Scalar} {raw : String} {literal : Literal}
    {relation : Relation} (hactual : actual.sourceType = type)
    (hliteral : Literal.ofText type raw = .ok literal)
    (hequality : type = .boolean → relation.testsEquality = true)
    (order : String → String → Ordering) : (test order relation actual literal).isSome = true := by
  subst hactual
  cases actual with
  | number x =>
    simp only [Scalar.sourceType, Literal.ofText] at hliteral
    split at hliteral
    · split at hliteral <;> cases hliteral
      rfl
    · cases hliteral
  | text s =>
    cases hliteral
    rfl
  | flag b =>
    simp only [Scalar.sourceType, Literal.ofText] at hliteral
    split at hliteral
    · cases hliteral
      have hrelation := hequality rfl
      cases relation <;> first | rfl | cases hrelation
    · cases hliteral

namespace Condition

variable {record : Record} {type : SourceType} {field : String}

theorem bind_ne_of_misreads {use use' : Scalar → Option Bool}
    (h : record.misreads type field = true)
    (huse : ∀ actual, actual.sourceType = type → (use actual).isSome = true)
    (huse' : ∀ actual, actual.sourceType = type → (use' actual).isSome = true) :
    (record.helperRead? type field).bind use ≠ (record.read? type field).bind use' := by
  have hne := Record.helperRead?_isSome_ne h
  intro heq
  cases hhelper : record.helperRead? type field with
  | none =>
    cases hread : record.read? type field with
    | none => simp [hhelper, hread] at hne
    | some actual =>
      have hsome := huse' actual (Record.sourceType_read? hread)
      rw [hhelper, hread, Option.bind_none, Option.bind_some] at heq
      rw [← heq] at hsome
      cases hsome
  | some actual =>
    cases hread : record.read? type field with
    | none =>
      have hsome := huse actual (Record.sourceType_helperRead? hhelper)
      rw [hhelper, hread, Option.bind_none, Option.bind_some] at heq
      rw [heq] at hsome
      cases hsome
    | some actual' => simp [hhelper, hread] at hne

/-- A comparison has the answer of the interpreter exactly where it does not part. -/
theorem answer_compare_iff {raw : String} {literal : Literal} {relation : Relation}
    (hliteral : Literal.ofText type raw = .ok literal)
    (hequality : type = .boolean → relation.testsEquality = true) :
    (compare field relation type literal).answer record =
        (compare field relation type literal).value Ord.compare record ↔
      (compare field relation type literal).parts record = false := by
  cases hmisreads : record.misreads type field with
  | true =>
    simp only [parts, misreads, hmisreads, Bool.true_or, reduceCtorEq, iff_false, answer, value]
    exact bind_ne_of_misreads hmisreads
      (fun actual h => Helper.test_isSome h hliteral hequality _)
      (fun actual h => Helper.test_isSome h hliteral hequality _)
  | false =>
    have hplain : (compare field relation type literal).misreads record = false := by
      simpa only [misreads] using hmisreads
    rw [answer_eq_value _ hplain, parts, hplain, Bool.false_or]
    cases type with
    | string =>
      cases hliteral
      exact value_units_iff field relation raw record
    | double => exact ⟨fun _ => rfl, value_units⟩
    | boolean => exact ⟨fun _ => rfl, value_units⟩

theorem answer_member_iff {values : List Literal} {negated : Bool} :
    (member field type values negated).answer record =
        (member field type values negated).value Ord.compare record ↔
      (member field type values negated).parts record = false := by
  cases hmisreads : record.misreads type field with
  | true =>
    simp only [parts, misreads, hmisreads, Bool.true_or, reduceCtorEq, iff_false, answer, value,
      Option.map_eq_bind]
    exact bind_ne_of_misreads hmisreads (fun _ _ => rfl) (fun _ _ => rfl)
  | false =>
    have hplain : (member field type values negated).misreads record = false := by
      simpa only [misreads] using hmisreads
    rw [answer_eq_value _ hplain, parts, hplain, Bool.false_or]
    exact ⟨fun _ => rfl, value_units⟩

end Condition

/-- One field against literals, or for its presence. -/
def Predicate.isTest : Predicate → Bool
  | .simple _ _ _ => true
  | .set _ _ _ => true
  | _ => false

theorem Predicate.answer_iff {table : FieldTable} {p : Predicate} {condition : Condition}
    (htest : p.isTest = true) (h : p.typed table = .ok condition) (record : Record) :
    condition.answer record = condition.value compare record ↔ condition.parts record = false := by
  cases p with
  | simple field operator value =>
    simp only [typed] at h
    split at h
    · cases h
    · split at h
      · rename_i hsimple
        cases h
        rcases typedSimple_cases hsimple with
          (rfl | rfl) | ⟨relation, raw, literal, rfl, hliteral, hequality⟩
        · exact ⟨fun _ => rfl, fun _ => rfl⟩
        · exact ⟨fun _ => rfl, fun _ => rfl⟩
        · exact Condition.answer_compare_iff hliteral hequality
      · cases h
  | set field operator values =>
    simp only [typed] at h
    split at h
    · cases h
    · split at h
      · cases h
        exact Condition.answer_member_iff
      · cases h
  | compound operator operands => cases htest
  | always => cases htest
  | never => cases htest

namespace Dictionaries

/-- The helpers answer with the truth of a predicate on every record on which none of its tests
parts. A single test has another answer than its truth exactly where it parts: where one side alone
reads the text of its field as a number or a flag, or the text straddles a literal that it is put in
order with. -/
theorem helpers_agree {layers : Dictionaries} {table : FieldTable}
    (hresolve : layers.resolve = .ok table) (model : String) {p : Predicate} {path : String}
    {condition : Condition} (htyped : p.typedAt table model path = .ok condition)
    (record : Record) :
    ∃ types t, layers.typesFor model = .ok types ∧ p.evaluate types record = .ok t ∧
      (condition.parts record = false → condition.answer record = t.boxed) ∧
      (p.isTest = true →
        (condition.answer record = t.boxed ↔ condition.parts record = false)) := by
  obtain ⟨types, htypes, hmatch⟩ := resolve_fieldTypes hresolve
  have hcondition := Tree.typedAt_ok htyped
  obtain ⟨t, ht, hvalue⟩ := Predicate.evaluate_typed hmatch record p condition hcondition
  refine ⟨types, t, by simp [typesFor, htypes], ht, ?_, ?_⟩
  · intro hplain
    rw [Condition.parts, Bool.or_eq_false_iff] at hplain
    rw [Condition.answer_eq_value condition hplain.1, Condition.value_units hplain.2, hvalue]
  · intro htest
    rw [← hvalue]
    exact Predicate.answer_iff htest hcondition record

def five : Float := Number.ofDecimal false 5 0

def isFive : Predicate := .simple "zip" .equal (some "5")

def isFiveCondition : Condition := .compare "zip" .eq .double (.number five)

theorem shadowed_double : (shadowed "double").resolve = .ok (shadowedTable .numeric) :=
  shadowed_resolve (by decide +kernel)

theorem typedAt_isFive :
    isFive.typedAt (shadowedTable .numeric) "m" "0" = .ok isFiveCondition := by
  have hread : Number.readTrimmed "5" = some five := rfl
  have hfinite : Number.isFinite five = true := by decide +kernel
  have hliteral : Literal.ofText .double "5" = .ok (.number five) := by
    simp only [Literal.ofText, hread, hfinite, if_true]
  have hsimple : Predicate.typedSimple .double "zip" .equal (some "5") = .ok isFiveCondition := by
    simp [Predicate.typedSimple, Comparison.relation?, hliteral, isFiveCondition]
  have htyped : isFive.typed (shadowedTable .numeric) = .ok isFiveCondition := by
    simp only [isFive, Predicate.typed, shadowedTable, FieldTable.get?, List.lookup_cons_self,
      FieldType.sourceType, hsimple]
  simp only [Predicate.typedAt, htyped]

theorem helpers_agree_blank :
    (shadowed "double").resolve = .ok (shadowedTable .numeric) ∧
      isFive.typedAt (shadowedTable .numeric) "m" "0" = .ok isFiveCondition ∧
      ∃ types t, (shadowed "double").typesFor "m" = .ok types ∧
        isFive.evaluate types [("zip", .string "\t5 ")] = .ok t ∧ t.boxed = some true ∧
        isFiveCondition.answer [("zip", .string "\t5 ")] = t.boxed := by
  obtain ⟨types, t, htypes, ht, hagree, -⟩ :=
    helpers_agree shadowed_double "m" typedAt_isFive [("zip", .string "\t5 ")]
  have hanswer : isFiveCondition.answer [("zip", .string "\t5 ")] = some true := by
    decide +kernel
  have hboxed := hagree (by decide +kernel)
  exact ⟨shadowed_double, typedAt_isFive, types, t, htypes, ht, by rw [← hboxed, hanswer], hboxed⟩

/-- The helpers read a number with a suffix, and the interpreter one after a no-break space. -/
theorem helpers_disagree_suffix :
    (shadowed "double").resolve = .ok (shadowedTable .numeric) ∧
      isFive.typedAt (shadowedTable .numeric) "m" "0" = .ok isFiveCondition ∧
      ∃ types, (shadowed "double").typesFor "m" = .ok types ∧
        isFive.evaluate types [("zip", .string "5d")] = .ok .unknown ∧
        isFiveCondition.answer [("zip", .string "5d")] = some true ∧
        isFive.evaluate types [("zip", .string "\u00a05")] = .ok .true ∧
        isFiveCondition.answer [("zip", .string "\u00a05")] = none := by
  obtain ⟨types, htypes, hmatch⟩ := resolve_fieldTypes shadowed_double
  have hcondition := Tree.typedAt_ok typedAt_isFive
  obtain ⟨t, ht, hvalue⟩ :=
    Predicate.evaluate_typed hmatch [("zip", .string "5d")] isFive _ hcondition
  obtain ⟨u, hu, hvalue'⟩ :=
    Predicate.evaluate_typed hmatch [("zip", .string "\u00a05")] isFive _ hcondition
  have hunknown : t = .unknown := by
    apply Truth.boxed_injective
    rw [← hvalue]
    decide +kernel
  have htrue : u = .true := by
    apply Truth.boxed_injective
    rw [← hvalue']
    decide +kernel
  refine ⟨shadowed_double, typedAt_isFive, types, by simp [typesFor, htypes], ?_, ?_, ?_, ?_⟩
  · rw [ht, hunknown]
  · decide +kernel
  · rw [hu, htrue]
  · decide +kernel

end Dictionaries
end ScoringTree
