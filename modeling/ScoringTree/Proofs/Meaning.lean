import ScoringTree.Proofs.FieldTypes
import ScoringTree.Proofs.Order
import ScoringTree.Rule.Derivation

/-!
# ScoringTree.Proofs.Meaning

What a condition computes on a record, helper by helper as generated source has them, and that it
is the truth of the predicate the condition was made from.

* `Truth.boxed`       — a truth as generated source holds it: no value for unknown.
* `Helper`            — the helpers: comparisons, membership and the loops of the connectives.
* `Condition.value`   — the value of a condition. How texts are ordered is a parameter.
* `Predicate.evaluate_typed`
                      — a predicate that has a condition can be evaluated on every record, and its
                        truth is the value of the condition.
-/

namespace ScoringTree

def Truth.boxed : Truth → Option Bool
  | .true => some Bool.true
  | .false => some Bool.false
  | .unknown => none

/-! ## Helpers -/

namespace Helper

def isTrue (value : Option Bool) : Bool := value == some true

def numberTest : Relation → Float → Float → Bool
  | .eq, value, literal => value == literal
  | .ne, value, literal => value != literal
  | .lt, value, literal => value < literal
  | .le, value, literal => value ≤ literal
  | .gt, value, literal => value > literal
  | .ge, value, literal => value ≥ literal

def textTest (order : String → String → Ordering) : Relation → String → String → Bool
  | .eq, value, literal => value == literal
  | .ne, value, literal => value != literal
  | .lt, value, literal => order value literal == .lt
  | .le, value, literal => order value literal != .gt
  | .gt, value, literal => order value literal == .gt
  | .ge, value, literal => order value literal != .lt

/-- Flags have no helper that orders them. -/
def flagTest : Relation → Bool → Bool → Option Bool
  | .eq, value, literal => some (value == literal)
  | .ne, value, literal => some (value != literal)
  | _, _, _ => none

/-- The comparison of a value with a literal of its type; there is no helper for other pairs. -/
def test (order : String → String → Ordering) (relation : Relation) :
    Scalar → Literal → Option Bool
  | .number x, .number y => some (numberTest relation x y)
  | .text s, .text t => some (textTest order relation s t)
  | .flag b, .flag c => flagTest relation b c
  | _, _ => none

def same : Scalar → Literal → Bool
  | .number x, .number y => x == y
  | .text s, .text t => s == t
  | .flag b, .flag c => b == c
  | _, _ => false

/-- The loop of a connective that one value decides: `result` is what it would answer if the
operands ended here. -/
def decidedBy (deciding : Bool) (result : Option Bool) : List (Option Bool) → Option Bool
  | [] => result
  | operand :: rest =>
    if operand = some deciding then some deciding
    else decidedBy deciding (if operand = none then none else result) rest

def parityFrom (parity : Bool) : List (Option Bool) → Option Bool
  | [] => some parity
  | none :: _ => none
  | some operand :: rest => parityFrom (parity ^^ operand) rest

def firstPresent : List (Option Bool) → Option Bool
  | [] => none
  | none :: rest => firstPresent rest
  | some operand :: _ => some operand

def connective : Connective → List (Option Bool) → Option Bool
  | .and => decidedBy false (some true)
  | .or => decidedBy true (some false)
  | .xor => parityFrom false
  | .surrogate => firstPresent

end Helper

/-! ## Values of conditions -/

namespace SourceType

/-- A field type that reads values the way the helpers of this type do. -/
def fieldType : SourceType → FieldType
  | .double => .numeric
  | .string => .text
  | .boolean => .boolean

end SourceType

/-- The value of a field read as a type; none if it is missing or has no reading. -/
def Record.read? (record : Record) (type : SourceType) (field : String) : Option Scalar :=
  (record.value? field).bind (Scalar.ofJson? type.fieldType)

namespace Condition

mutual

def value (order : String → String → Ordering) (record : Record) : Condition → Option Bool
  | .compare field relation type literal =>
    (record.read? type field).bind fun actual => Helper.test order relation actual literal
  | .missing field => some (record.value? field).isNone
  | .present field => some (record.value? field).isSome
  | .member field type values negated =>
    (record.read? type field).map fun actual => values.any (Helper.same actual) != negated
  | .compound operator operands => Helper.connective operator (valueAll order record operands)
  | .constant b => some b

def valueAll (order : String → String → Ordering) (record : Record) :
    List Condition → List (Option Bool)
  | [] => []
  | c :: cs => value order record c :: valueAll order record cs

end

end Condition

/-! ## Helpers against the interpreter -/

namespace Helper

theorem isTrue_boxed (t : Truth) : isTrue t.boxed = true ↔ t = .true := by
  cases t <;> simp [isTrue, Truth.boxed]

theorem decidedBy_all (result : Option Bool) (truths : List Truth) :
    decidedBy false result (truths.map Truth.boxed) =
      match Truth.all truths with
      | .true => result
      | .false => some false
      | .unknown => none := by
  induction truths generalizing result with
  | nil => rfl
  | cons t ts ih =>
    cases t with
    | true => exact ih result
    | false => rfl
    | unknown =>
      have hstep : decidedBy false result ((Truth.unknown :: ts).map Truth.boxed) =
        decidedBy false none (ts.map Truth.boxed) := rfl
      rw [hstep, ih none, Truth.all]
      cases Truth.all ts <;> rfl

theorem decidedBy_any (result : Option Bool) (truths : List Truth) :
    decidedBy true result (truths.map Truth.boxed) =
      match Truth.any truths with
      | .true => some true
      | .false => result
      | .unknown => none := by
  induction truths generalizing result with
  | nil => rfl
  | cons t ts ih =>
    cases t with
    | true => rfl
    | false => exact ih result
    | unknown =>
      have hstep : decidedBy true result ((Truth.unknown :: ts).map Truth.boxed) =
        decidedBy true none (ts.map Truth.boxed) := rfl
      rw [hstep, ih none, Truth.any]
      cases Truth.any ts <;> rfl

theorem parityFrom_parity (parity : Bool) (truths : List Truth) :
    parityFrom parity (truths.map Truth.boxed) =
      (Truth.parity truths).boxed.map fun odd => parity ^^ odd := by
  induction truths generalizing parity with
  | nil => simp [parityFrom, Truth.parity, Truth.boxed]
  | cons t ts ih =>
    cases t with
    | true =>
      rw [List.map_cons, Truth.boxed, parityFrom, ih, Truth.parity]
      cases Truth.parity ts <;> cases parity <;> rfl
    | false =>
      rw [List.map_cons, Truth.boxed, parityFrom, ih, Truth.parity]
      simp
    | unknown => rfl

theorem firstPresent_firstKnown (truths : List Truth) :
    firstPresent (truths.map Truth.boxed) = (Truth.firstKnown truths).boxed := by
  induction truths with
  | nil => rfl
  | cons t ts ih =>
    cases t with
    | true => rfl
    | false => rfl
    | unknown => exact ih

/-- The loops of the connectives compute the combinations of truths. -/
theorem connective_boxed (operator : Connective) (truths : List Truth) :
    connective operator (truths.map Truth.boxed) = (operator.combine truths).boxed := by
  cases operator with
  | and =>
    simp only [connective, Connective.combine, decidedBy_all]
    cases Truth.all truths <;> rfl
  | or =>
    simp only [connective, Connective.combine, decidedBy_any]
    cases Truth.any truths <;> rfl
  | xor => simp [connective, Connective.combine, parityFrom_parity]
  | surrogate => exact firstPresent_firstKnown truths

theorem numberTest_eq {operator : Comparison} {relation : Relation}
    (h : operator.relation? = some relation) (x y : Float) :
    numberTest relation x y = operator.holds (floatOrder? x y) := by
  rw [Number.floatOrder?_eq]
  have heq : (x == y) = (Number.modelOrder? x y == some .eq) := by
    rw [Bool.eq_iff_iff, Number.beq_iff_modelOrder?, beq_iff_eq]
  cases operator with
  | equal => cases h; exact heq
  | notEqual => cases h; exact congrArg (!·) heq
  | lessThan =>
    cases h
    rw [Bool.eq_iff_iff]
    simp [numberTest, Comparison.holds, Number.lt_iff_modelOrder?]
  | lessOrEqual =>
    cases h
    rw [Bool.eq_iff_iff]
    simp [numberTest, Comparison.holds, Number.le_iff_modelOrder?]
  | greaterThan =>
    cases h
    rw [Bool.eq_iff_iff]
    simp [numberTest, Comparison.holds, Number.gt_iff_modelOrder?]
  | greaterOrEqual =>
    cases h
    rw [Bool.eq_iff_iff]
    simp [numberTest, Comparison.holds, Number.ge_iff_modelOrder?]
  | isMissing => cases h
  | isNotMissing => cases h

theorem textTest_eq {operator : Comparison} {relation : Relation}
    (h : operator.relation? = some relation) (s t : String) :
    textTest compare relation s t = operator.holds (some (compare s t)) := by
  have heq : (s == t) = (some (compare s t) == some .eq) := by
    rw [Bool.eq_iff_iff]
    simp
  cases operator with
  | equal => cases h; exact heq
  | notEqual => cases h; exact congrArg (!·) heq
  | lessThan => cases h; rfl
  | lessOrEqual => cases h; simp only [textTest, Comparison.holds]; cases compare s t <;> rfl
  | greaterThan => cases h; rfl
  | greaterOrEqual => cases h; simp only [textTest, Comparison.holds]; cases compare s t <;> rfl
  | isMissing => cases h
  | isNotMissing => cases h

theorem flagTest_eq {operator : Comparison} {relation : Relation}
    (h : operator.relation? = some relation) (hequality : relation.testsEquality = true)
    (b c : Bool) : flagTest relation b c = some (operator.holds (some (flagOrder b c))) := by
  cases operator <;> cases h <;> first | (cases hequality; done) | (cases b <;> cases c <;> rfl)

end Helper

/-! ## Readings and literals -/

theorem Scalar.ofJson?_sourceType (type : FieldType) (value : Json) :
    Scalar.ofJson? type.sourceType.fieldType value = Scalar.ofJson? type value := by
  cases type <;> rfl

/-- A value and a literal of one type. -/
inductive Paired : Scalar → Literal → String → Prop where
  | number {raw : String} (x y : Float) :
      Number.readTrimmed raw = some y → Paired (.number x) (.number y) raw
  | text (s raw : String) : Paired (.text s) (.text raw) raw
  | flag {raw : String} (b c : Bool) : readFlag raw = some c → Paired (.flag b) (.flag c) raw

/-- A value read as a type, and a literal converted to that type, are of one type. -/
theorem Paired.of_type {type : FieldType} {value : Json} {actual : Scalar} {raw : String}
    {literal : Literal} (hread : Scalar.ofJson? type value = some actual)
    (hliteral : Literal.ofText type.sourceType raw = .ok literal) :
    Paired actual literal raw := by
  cases type with
  | numeric =>
    simp only [FieldType.sourceType, Literal.ofText] at hliteral
    split at hliteral
    · rename_i y hy
      split at hliteral
      · cases hliteral
        cases value with
        | number n => cases hread; exact .number _ _ hy
        | string s =>
          obtain ⟨x, -, rfl⟩ := Option.map_eq_some_iff.mp hread
          exact .number _ _ hy
        | null => cases hread
        | bool b => cases hread
        | array items => cases hread
        | object members => cases hread
      · cases hliteral
    · cases hliteral
  | categorical => cases hliteral; cases hread; exact .text _ _
  | text => cases hliteral; cases hread; exact .text _ _
  | boolean =>
    simp only [FieldType.sourceType, Literal.ofText] at hliteral
    split at hliteral
    · rename_i c hc
      cases hliteral
      cases value with
      | bool b => cases hread; exact .flag _ _ hc
      | string s =>
        obtain ⟨b, -, rfl⟩ := Option.map_eq_some_iff.mp hread
        exact .flag _ _ hc
      | null => cases hread
      | number n => cases hread
      | array items => cases hread
      | object members => cases hread
    · cases hliteral

namespace Paired

variable {actual : Scalar} {literal : Literal} {raw : String}

/-- The literal can be read again at every evaluation, and its comparison is that of the helper. -/
theorem test_eq (h : Paired actual literal raw) :
    ∃ order, actual.order? raw = .ok order ∧
      ∀ {operator : Comparison} {relation : Relation}, operator.relation? = some relation →
        (actual.isFlag = true → relation.testsEquality = true) →
        Helper.test compare relation actual literal = some (operator.holds order) := by
  cases h with
  | number x y hy =>
    refine ⟨floatOrder? x y, by simp [Scalar.order?, hy], ?_⟩
    intro operator relation hrelation _
    exact congrArg some (Helper.numberTest_eq hrelation x y)
  | text s =>
    refine ⟨some (compare s raw), rfl, ?_⟩
    intro operator relation hrelation _
    exact congrArg some (Helper.textTest_eq hrelation s raw)
  | flag b c hc =>
    refine ⟨some (flagOrder b c), by simp [Scalar.order?, hc], ?_⟩
    intro operator relation hrelation hequality
    exact Helper.flagTest_eq hrelation (hequality rfl) b c

theorem same_eq (h : Paired actual literal raw) :
    ∃ order, actual.order? raw = .ok order ∧ Helper.same actual literal = (order == some .eq) := by
  cases h with
  | number x y hy =>
    exact ⟨floatOrder? x y, by simp [Scalar.order?, hy],
      @Helper.numberTest_eq .equal .eq rfl x y⟩
  | text s =>
    exact ⟨some (compare s raw), rfl, @Helper.textTest_eq .equal .eq rfl s raw⟩
  | flag b c hc =>
    refine ⟨some (flagOrder b c), by simp [Scalar.order?, hc], ?_⟩
    cases b <;> cases c <;> rfl

end Paired

theorem Truth.boxed_injective : Function.Injective Truth.boxed := by
  intro t u h
  cases t <;> cases u <;> simp [boxed] at h <;> rfl

theorem Truth.boxed_ofBool (b : Bool) : (Truth.ofBool b).boxed = some b := by
  cases b <;> rfl

theorem Membership.truth_boxed (operator : Membership) (found : Bool) :
    (operator.truth found).boxed = some (found != (operator == .isNotIn)) := by
  cases operator <;> cases found <;> rfl

theorem Scalar.isFlag_ofJson? {type : FieldType} {value : Json} {actual : Scalar}
    (h : Scalar.ofJson? type value = some actual) (hflag : actual.isFlag = true) :
    type.sourceType = .boolean := by
  cases type with
  | boolean => rfl
  | categorical => cases h; cases hflag
  | text => cases h; cases hflag
  | numeric =>
    cases value with
    | number n => cases h; cases hflag
    | string s =>
      obtain ⟨x, -, rfl⟩ := Option.map_eq_some_iff.mp h
      cases hflag
    | null => cases h
    | bool b => cases h
    | array items => cases h
    | object members => cases h

namespace Comparison

theorem of_relation? {operator : Comparison} {relation : Relation}
    (h : operator.relation? = some relation) :
    operator.testsPresence = false ∧ operator.testsEquality = relation.testsEquality ∧
      Predicate.compareMissing operator = .unknown := by
  cases operator <;> cases h <;> exact ⟨rfl, rfl, rfl⟩

end Comparison

namespace Predicate

/-- The truth of a comparison, whether or not there is a value. -/
def compareField (type : FieldType) (field : String) (operator : Comparison)
    (literal : Option String) : Option Json → Except EvaluationFault Truth
  | none => .ok (compareMissing operator)
  | some value => compareValue type field operator literal value

theorem typedSimple_presence {type : SourceType} {field : String} {operator : Comparison}
    {literal : Option String} {condition : Condition} (hnone : operator.relation? = none)
    (h : typedSimple type field operator literal = .ok condition) (fieldType : FieldType)
    (order : String → String → Ordering) (record : Record) :
    ∃ t, compareField fieldType field operator literal (record.value? field) = .ok t ∧
      condition.value order record = t.boxed := by
  simp only [typedSimple, hnone] at h
  cases h
  cases operator <;> cases hnone <;> cases hv : record.value? field <;>
    exact ⟨_, rfl, by simp [Condition.value, hv]; rfl⟩

theorem typedSimple_relation {type : FieldType} {field : String} {operator : Comparison}
    {relation : Relation} {literal : Option String} {condition : Condition}
    (hsome : operator.relation? = some relation)
    (h : typedSimple type.sourceType field operator literal = .ok condition) (record : Record) :
    ∃ t, compareField type field operator literal (record.value? field) = .ok t ∧
      condition.value compare record = t.boxed := by
  obtain ⟨hpresence, hequality, hmissing⟩ := Comparison.of_relation? hsome
  simp only [typedSimple, hsome] at h
  split at h
  · cases h
  · rename_i hordered
    split at h
    · cases h
    · rename_i raw
      split at h
      · rename_i converted hconverted
        cases h
        cases hv : record.value? field with
        | none => exact ⟨.unknown, by simp [compareField, hmissing], by
            simp [Condition.value, Record.read?, hv, Truth.boxed]⟩
        | some value =>
          have hread : record.read? type.sourceType field = Scalar.ofJson? type value := by
            simp [Record.read?, hv, Scalar.ofJson?_sourceType]
          simp only [compareField, compareValue, hpresence, Bool.false_eq_true, if_false,
            Condition.value, hread]
          cases hactual : Scalar.ofJson? type value with
          | none => exact ⟨.unknown, rfl, rfl⟩
          | some actual =>
            have hflag : actual.isFlag = true → relation.testsEquality = true := by
              intro hf
              have := Scalar.isFlag_ofJson? hactual hf
              simpa [this] using hordered
            have hallowed : (actual.isFlag && !operator.testsEquality) = false := by
              rw [hequality]
              cases hf : actual.isFlag with
              | false => rfl
              | true => simp [hflag hf]
            obtain ⟨order, horder, htest⟩ := (Paired.of_type hactual hconverted).test_eq
            refine ⟨.ofBool (operator.holds order), ?_, ?_⟩
            · simp [hallowed, horder]
            · simp [htest hsome hflag, Truth.boxed_ofBool]
      · cases h

theorem evaluate_simple {types : FieldTypes} {type : FieldType} {field : String}
    (htype : types.get? field = some type) (operator : Comparison) (literal : Option String)
    (record : Record) :
    evaluate types record (.simple field operator literal) =
      compareField type field operator literal (record.value? field) := by
  rw [evaluate, htype]
  cases record.value? field <;> rfl

theorem member_ofTexts {type : FieldType} {value : Json} {actual : Scalar} (field : String)
    (hread : Scalar.ofJson? type value = some actual) :
    ∀ {raws : List String} {literals : List Literal},
      Literal.ofTexts type.sourceType raws = .ok literals →
      member field actual raws = .ok (literals.any (Helper.same actual)) := by
  intro raws
  induction raws with
  | nil => intro literals h; cases h; rfl
  | cons raw rest ih =>
    intro literals h
    simp only [Literal.ofTexts] at h
    split at h
    · cases h
    · rename_i literal hliteral
      split at h
      · cases h
      · rename_i literals hrest
        cases h
        obtain ⟨order, horder, hsame⟩ := (Paired.of_type hread hliteral).same_eq
        simp only [member, horder, List.any_cons, hsame]
        cases order with
        | none => simpa using ih hrest
        | some o => cases o <;> simp [ih hrest]

theorem get?_of_matches {types : FieldTypes} {table : FieldTable} (hmatch : types.Matches table)
    {field : String} {resolved : ResolvedField} (h : table.get? field = some resolved) :
    types.get? field = some resolved.fieldType := by
  rw [hmatch.declared field, h]
  rfl

mutual

/-- A predicate with a condition has a truth on every record, and it is the condition's value. -/
theorem evaluate_typed {types : FieldTypes} {table : FieldTable} (hmatch : types.Matches table)
    (record : Record) :
    ∀ (p : Predicate) (condition : Condition), p.typed table = .ok condition →
      ∃ t, p.evaluate types record = .ok t ∧ condition.value compare record = t.boxed
  | .always, condition, h => by
    cases h
    exact ⟨.true, rfl, rfl⟩
  | .never, condition, h => by
    cases h
    exact ⟨.false, rfl, rfl⟩
  | .simple field operator literal, condition, h => by
    simp only [typed] at h
    split at h
    · cases h
    · rename_i resolved hresolved
      rw [hmatch.generated field resolved hresolved] at h
      split at h
      · rename_i typedCondition htyped
        cases h
        rw [evaluate_simple (get?_of_matches hmatch hresolved)]
        cases hrelation : operator.relation? with
        | none => exact typedSimple_presence hrelation htyped _ compare record
        | some relation => exact typedSimple_relation hrelation htyped record
      · cases h
  | .set field operator literals, condition, h => by
    simp only [typed] at h
    split at h
    · cases h
    · rename_i resolved hresolved
      rw [hmatch.generated field resolved hresolved] at h
      split at h
      · rename_i values hvalues
        cases h
        have hread : record.read? resolved.fieldType.sourceType field =
            (record.value? field).bind (Scalar.ofJson? resolved.fieldType) := by
          simp only [Record.read?]
          congr 1
          exact funext (Scalar.ofJson?_sourceType _)
        simp only [evaluate, get?_of_matches hmatch hresolved, Condition.value, hread]
        cases hactual : (record.value? field).bind (Scalar.ofJson? resolved.fieldType) with
        | none => exact ⟨.unknown, rfl, rfl⟩
        | some actual =>
          obtain ⟨value, -, hof⟩ := Option.bind_eq_some_iff.mp hactual
          refine ⟨operator.truth (values.any (Helper.same actual)), ?_, ?_⟩
          · simp only [member_ofTexts field hof hvalues]
          · rw [Membership.truth_boxed]
            rfl
      · cases h
  | .compound operator [], condition, h => by cases h
  | .compound operator (p :: ps), condition, h => by
    simp only [typed] at h
    split at h
    · cases h
    · rename_i c hc
      split at h
      · cases h
      · rename_i cs hcs
        cases h
        obtain ⟨t, ht, hvalue⟩ := evaluate_typed hmatch record p c hc
        obtain ⟨ts, hts, hvalues⟩ := evaluateAll_typed hmatch record ps cs hcs
        refine ⟨operator.combine (t :: ts), by simp [evaluate, evaluateAll, ht, hts], ?_⟩
        simp only [Condition.value, Condition.valueAll, hvalue, hvalues]
        exact Helper.connective_boxed operator (t :: ts)

theorem evaluateAll_typed {types : FieldTypes} {table : FieldTable}
    (hmatch : types.Matches table) (record : Record) :
    ∀ (ps : List Predicate) (conditions : List Condition), typedAll table ps = .ok conditions →
      ∃ ts, evaluateAll types record ps = .ok ts ∧
        Condition.valueAll compare record conditions = ts.map Truth.boxed
  | [], conditions, h => by
    cases h
    exact ⟨[], rfl, rfl⟩
  | p :: ps, conditions, h => by
    simp only [typedAll] at h
    split at h
    · cases h
    · rename_i c hc
      split at h
      · cases h
      · rename_i cs hcs
        cases h
        obtain ⟨t, ht, hvalue⟩ := evaluate_typed hmatch record p c hc
        obtain ⟨ts, hts, hvalues⟩ := evaluateAll_typed hmatch record ps cs hcs
        exact ⟨t :: ts, by simp [evaluateAll, ht, hts], by
          simp [Condition.valueAll, hvalue, hvalues]⟩

end

end Predicate

/-! ## The order of texts -/

namespace Condition

mutual

/-- The fields that are tested for their place in the order of texts, with the literals. -/
def orderings : Condition → List (String × String)
  | .compare field relation .string (.text literal) =>
    if relation.testsEquality then [] else [(field, literal)]
  | .compound _ operands => orderingsAll operands
  | _ => []

def orderingsAll : List Condition → List (String × String)
  | [] => []
  | c :: cs => orderings c ++ orderingsAll cs

end

/-- The texts of a record that a condition puts in order are ordered in two ways alike. -/
def OrdersAlike (order order' : String → String → Ordering) (record : Record)
    (condition : Condition) : Prop :=
  ∀ test ∈ condition.orderings, ∀ s, record.read? .string test.1 = some (.text s) →
    order s test.2 = order' s test.2

section Congruence

variable {order order' : String → String → Ordering} {record : Record}

theorem test_congr {field literal : String} {relation : Relation}
    (h : (compare field relation .string (.text literal)).OrdersAlike order order' record)
    {actual : Scalar} (hread : record.read? .string field = some actual) :
    Helper.test order relation actual (.text literal) =
      Helper.test order' relation actual (.text literal) := by
  cases actual with
  | number x => rfl
  | flag b => rfl
  | text s =>
    cases hequality : relation.testsEquality with
    | true => cases relation <;> first | rfl | cases hequality
    | false =>
      have hs : order s literal = order' s literal :=
        h (field, literal) (by simp [orderings, hequality]) s hread
      cases relation <;> simp [Helper.test, Helper.textTest, hs]

/-- Only a text is compared in the order of texts. -/
theorem test_of_other {type : SourceType} {literal : Literal} {field : String} {actual : Scalar}
    {relation : Relation} (hread : record.read? type field = some actual)
    (h : type ≠ .string ∨ ∀ t, literal ≠ .text t) :
    Helper.test order relation actual literal = Helper.test order' relation actual literal := by
  cases actual with
  | number x => cases literal <;> rfl
  | flag b => cases literal <;> rfl
  | text s =>
    cases literal with
    | number y => rfl
    | flag c => rfl
    | text t =>
      exfalso
      rcases h with h | h
      · obtain ⟨value, -, hof⟩ := Option.bind_eq_some_iff.mp hread
        cases type with
        | string => exact h rfl
        | double => cases value <;> simp [SourceType.fieldType, Scalar.ofJson?] at hof
        | boolean => cases value <;> simp [SourceType.fieldType, Scalar.ofJson?] at hof
      · exact h t rfl

mutual

theorem value_congr : ∀ c : Condition, c.OrdersAlike order order' record →
    c.value order record = c.value order' record
  | .compare field relation type literal, h => by
    simp only [value]
    cases hread : record.read? type field with
    | none => rfl
    | some actual =>
      simp only [Option.bind_some]
      by_cases hkind : type = .string ∧ ∃ t, literal = .text t
      · obtain ⟨rfl, t, rfl⟩ := hkind
        exact test_congr h hread
      · refine test_of_other hread ?_
        by_cases htype : type = .string
        · exact Or.inr fun t ht => hkind ⟨htype, t, ht⟩
        · exact Or.inl htype
  | .missing field, _ => rfl
  | .present field, _ => rfl
  | .member field type values negated, _ => rfl
  | .compound operator operands, h => by
    simp only [value]
    rw [valueAll_congr operands fun test htest => h test (by simpa [orderings] using htest)]
  | .constant b, _ => rfl

theorem valueAll_congr : ∀ cs : List Condition,
    (∀ test ∈ orderingsAll cs, ∀ s, record.read? .string test.1 = some (.text s) →
      order s test.2 = order' s test.2) → valueAll order record cs = valueAll order' record cs
  | [], _ => rfl
  | c :: cs, h => by
    simp only [valueAll]
    rw [value_congr c fun test htest => h test (by simp [orderingsAll, htest]),
      valueAll_congr cs fun test htest => h test (by simp [orderingsAll, htest])]

end

end Congruence

end Condition
end ScoringTree
