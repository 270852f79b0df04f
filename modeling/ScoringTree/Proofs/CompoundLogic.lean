import Mathlib.Data.List.Perm.Basic
import ScoringTree.Proofs.Information

/-!
# ScoringTree.Proofs.CompoundLogic

What compound predicates come to.

* `Connective.verdict`   — a combination said by what is among its operands.
* `Predicate.Reordered`  — operands moved within their compounds, at any depth; those of a surrogate
                           stay where they are.
* `Predicate.evaluate_order_free`
                         — the truth of a predicate does not depend on that order.
* `Membership.expansion` — a test of membership as a compound of comparisons.
* `Predicate.evaluate_expansion`
                         — the test and the compound have the same truth.
-/

namespace ScoringTree

/-! ## Combinations without an order -/

/-- What a combination comes to, by what is among its operands. Only for the first known operand it
matters where that stands. -/
def Connective.verdict : Connective → List Truth → Truth
  | .and, truths =>
    if .false ∈ truths then .false else if .unknown ∈ truths then .unknown else .true
  | .or, truths =>
    if .true ∈ truths then .true else if .unknown ∈ truths then .unknown else .false
  | .xor, truths =>
    if .unknown ∈ truths then .unknown else .ofBool (truths.count .true % 2 == 1)
  | .surrogate, truths => (truths.find? (· != .unknown)).getD .unknown

namespace Truth

theorem all_eq_verdict (truths : List Truth) : all truths = Connective.and.verdict truths := by
  induction truths with
  | nil => rfl
  | cons t rest ih =>
    cases t with
    | true => simpa [all, Connective.verdict] using ih
    | false => simp [all, Connective.verdict]
    | unknown =>
      rw [all, ih]
      by_cases hfalse : Truth.false ∈ rest
      · simp [Connective.verdict, hfalse]
      · by_cases hunknown : Truth.unknown ∈ rest <;>
          simp [Connective.verdict, hfalse, hunknown]

theorem any_eq_verdict (truths : List Truth) : any truths = Connective.or.verdict truths := by
  induction truths with
  | nil => rfl
  | cons t rest ih =>
    cases t with
    | true => simp [any, Connective.verdict]
    | false => simpa [any, Connective.verdict] using ih
    | unknown =>
      rw [any, ih]
      by_cases htrue : Truth.true ∈ rest
      · simp [Connective.verdict, htrue]
      · by_cases hunknown : Truth.unknown ∈ rest <;>
          simp [Connective.verdict, htrue, hunknown]

theorem parity_eq_verdict (truths : List Truth) :
    parity truths = Connective.xor.verdict truths := by
  induction truths with
  | nil => rfl
  | cons t rest ih =>
    cases t with
    | true =>
      rw [parity, ih]
      by_cases hunknown : Truth.unknown ∈ rest
      · simp [Connective.verdict, hunknown]
      · -- one more truth makes an even number odd and an odd one even
        rcases Nat.mod_two_eq_zero_or_one (rest.count .true) with hcount | hcount
        · have hnext : (rest.count .true + 1) % 2 = 1 := by omega
          simp [Connective.verdict, hunknown, hcount, hnext, ofBool]
        · have hnext : (rest.count .true + 1) % 2 = 0 := by omega
          simp [Connective.verdict, hunknown, hcount, hnext, ofBool]
    | false => simpa [parity, Connective.verdict] using ih
    | unknown => simp [parity, Connective.verdict]

theorem firstKnown_eq_verdict (truths : List Truth) :
    firstKnown truths = Connective.surrogate.verdict truths := by
  induction truths with
  | nil => rfl
  | cons t rest ih =>
    cases t with
    | true => rfl
    | false => rfl
    | unknown => simpa [firstKnown, Connective.verdict] using ih

end Truth

namespace Connective

theorem combine_eq_verdict (operator : Connective) (truths : List Truth) :
    operator.combine truths = operator.verdict truths := by
  cases operator with
  | and => exact Truth.all_eq_verdict truths
  | or => exact Truth.any_eq_verdict truths
  | xor => exact Truth.parity_eq_verdict truths
  | surrogate => exact Truth.firstKnown_eq_verdict truths

theorem verdict_perm {operator : Connective} (h : operator ≠ .surrogate)
    {truths truths' : List Truth} (hperm : truths.Perm truths') :
    operator.verdict truths = operator.verdict truths' := by
  cases operator with
  | and => simp only [verdict, hperm.mem_iff]
  | or => simp only [verdict, hperm.mem_iff]
  | xor => simp only [verdict, hperm.mem_iff, hperm.count_eq]
  | surrogate => exact absurd rfl h

end Connective

/-! ## Compounds -/

namespace Predicate

section Compounds

variable {types : FieldTypes} {record : Record}

/-- Operands one by one with their truths. -/
def Truths (types : FieldTypes) (record : Record) : List Predicate → List Truth → Prop :=
  List.Forall₂ fun p t => p.evaluate types record = .ok t

theorem evaluateAll_ok_iff {operands : List Predicate} {truths : List Truth} :
    evaluateAll types record operands = .ok truths ↔ Truths types record operands truths := by
  induction operands generalizing truths with
  | nil =>
    constructor
    · intro h
      cases h
      exact .nil
    · intro h
      cases h
      rfl
  | cons p ps ih =>
    constructor
    · intro h
      simp only [evaluateAll] at h
      split at h
      · cases h
      · rename_i t ht
        split at h
        · rename_i ts hts
          cases h
          exact .cons ht (ih.mp hts)
        · cases h
    · intro h
      cases h with
      | cons ht hts => simp only [evaluateAll, ht, ih.mpr hts]

/-- A compound has a truth if all its operands have one, and it is the verdict on these. -/
theorem evaluate_compound_iff {operator : Connective} {operands : List Predicate} {t : Truth} :
    (Predicate.compound operator operands).evaluate types record = .ok t ↔
      ∃ truths, Truths types record operands truths ∧ t = operator.verdict truths := by
  constructor
  · intro h
    simp only [evaluate] at h
    split at h
    · rename_i truths htruths
      cases h
      exact ⟨truths, evaluateAll_ok_iff.mp htruths, operator.combine_eq_verdict truths⟩
    · cases h
  · rintro ⟨truths, htruths, rfl⟩
    simp only [evaluate, evaluateAll_ok_iff.mpr htruths, operator.combine_eq_verdict]

/-! ## Moved operands -/

/-- The second predicate is the first with operands of its compounds moved, those of surrogates
apart. -/
inductive Reordered : Predicate → Predicate → Prop where
  | refl (p : Predicate) : Reordered p p
  | moved {operator : Connective} {operands operands' : List Predicate} :
      operator ≠ .surrogate → operands.Perm operands' →
      Reordered (.compound operator operands) (.compound operator operands')
  | inside {operator : Connective} {p p' : Predicate} (before after : List Predicate) :
      Reordered p p' →
      Reordered (.compound operator (before ++ p :: after))
        (.compound operator (before ++ p' :: after))
  | trans {p q r : Predicate} : Reordered p q → Reordered q r → Reordered p r

/-- Moved operands have the same truths, moved alike. -/
theorem evaluate_of_perm {operator : Connective} (h : operator ≠ .surrogate)
    {operands operands' : List Predicate} (hperm : operands.Perm operands') {t : Truth}
    (ht : (Predicate.compound operator operands).evaluate types record = .ok t) :
    (Predicate.compound operator operands').evaluate types record = .ok t := by
  obtain ⟨truths, htruths, rfl⟩ := evaluate_compound_iff.mp ht
  obtain ⟨truths', htruths', hmoved⟩ := List.perm_comp_forall₂ hperm.symm htruths
  exact evaluate_compound_iff.mpr ⟨truths', htruths', operator.verdict_perm h hmoved.symm⟩

theorem truths_inside {p p' : Predicate}
    (h : ∀ t, p.evaluate types record = .ok t ↔ p'.evaluate types record = .ok t)
    (before after : List Predicate) (truths : List Truth) :
    Truths types record (before ++ p :: after) truths ↔
      Truths types record (before ++ p' :: after) truths := by
  induction before generalizing truths with
  | nil =>
    cases truths with
    | nil => simp [Truths]
    | cons t rest => simp only [Truths, List.nil_append, List.forall₂_cons, h]
  | cons first before ih =>
    cases truths with
    | nil => simp [Truths]
    | cons t rest =>
      have hrest := ih rest
      simp only [Truths, List.cons_append, List.forall₂_cons] at hrest ⊢
      rw [hrest]

theorem Reordered.evaluate_iff {p q : Predicate} (h : Reordered p q) :
    ∀ t, p.evaluate types record = .ok t ↔ q.evaluate types record = .ok t := by
  induction h with
  | refl p => intro t; exact Iff.rfl
  | moved hoperator hperm =>
    intro t
    exact ⟨evaluate_of_perm hoperator hperm, evaluate_of_perm hoperator hperm.symm⟩
  | inside before after _ ih =>
    intro t
    simp only [evaluate_compound_iff, truths_inside ih before after]
  | trans _ _ ih ih' =>
    intro t
    exact (ih t).trans (ih' t)

/-- A node is entered with the truth of its predicate. -/
theorem enter_ok_iff {node : Node} {p : Predicate} (hp : node.predicate = some p) {t : Truth} :
    node.enter types record = .ok t ↔ p.evaluate types record = .ok t := by
  simp only [Node.enter, hp]
  cases p.evaluate types record <;> simp

theorem exists_error_iff {p : Predicate} :
    (∃ fault, p.evaluate types record = .error fault) ↔
      ¬ ∃ t, p.evaluate types record = .ok t := by
  cases p.evaluate types record <;> simp

end Compounds

/-- The truth of a predicate, and whether it has one, does not depend on the order of operands,
whatever node it guards. A compound comes to what is said of the truths among its operands. -/
theorem evaluate_order_free {p q : Predicate} (h : Reordered p q) (types : FieldTypes)
    (record : Record) :
    (∀ t, p.evaluate types record = .ok t ↔ q.evaluate types record = .ok t) ∧
    ((∃ fault, p.evaluate types record = .error fault) ↔
      ∃ fault, q.evaluate types record = .error fault) ∧
    (∀ (node node' : Node), node.predicate = some p → node'.predicate = some q → ∀ t,
      node.enter types record = .ok t ↔ node'.enter types record = .ok t) ∧
    ∀ operator operands t, (Predicate.compound operator operands).evaluate types record = .ok t ↔
      ∃ truths,
        List.Forall₂ (fun operand u => operand.evaluate types record = .ok u) operands truths ∧
          t = operator.verdict truths := by
  have hsame : ∀ t, p.evaluate types record = .ok t ↔ q.evaluate types record = .ok t :=
    h.evaluate_iff
  refine ⟨hsame, ?_, ?_, fun operator operands t => evaluate_compound_iff⟩
  · simp only [exists_error_iff, hsame]
  · intro node node' hp hq t
    rw [enter_ok_iff hp, enter_ok_iff hq, hsame]

namespace Nested

def low : Predicate := .simple "x" .lessThan (some "5")

def three : Predicate := .simple "y" .equal (some "3")

def gap : Predicate := .simple "x" .isMissing none

def first : Predicate :=
  .compound .and
    [.compound .or [low, three], .compound .surrogate [low, .compound .xor [gap, .never]]]

/-- The operands of the surrogate stay where they are; those of all others are moved. -/
def second : Predicate :=
  .compound .and
    [.compound .surrogate [low, .compound .xor [.never, gap]], .compound .or [three, low]]

def types : FieldTypes := ⟨[("x", .numeric), ("y", .numeric)]⟩

end Nested

open Nested in
theorem evaluate_order_free_nested :
    Reordered first second ∧ first.evaluate types [("y", .string "3.0")] = .ok .true ∧
      second.evaluate types [("y", .string "3.0")] = .ok .true := by
  have heval : first.evaluate types [("y", .string "3.0")] = .ok .true := by decide +kernel
  have hswap : ∀ a b : Predicate, [a, b].Perm [b, a] := fun a b => .swap b a []
  have hreordered : Reordered first second :=
    .trans (.inside [] _ (.moved (by decide) (hswap low three)))
      (.trans (.inside [_] [] (.inside [low] [] (.moved (by decide) (hswap gap .never))))
        (.moved (by decide) (hswap _ _)))
  exact ⟨hreordered, heval, ((evaluate_order_free hreordered types _).1 .true).mp heval⟩

end Predicate

/-! ## Membership as a compound -/

/-- The compound of comparisons that says what a test of membership says. -/
def Membership.expansion (field : String) (literals : List String) : Membership → Predicate
  | .isIn => .compound .or (literals.map fun literal => .simple field .equal (some literal))
  | .isNotIn => .compound .and (literals.map fun literal => .simple field .notEqual (some literal))

namespace Scalar

/-- The value equals the literal; one that is not a number equals none. -/
def equals (actual : Scalar) (literal : String) : Bool :=
  match actual.order? literal with
  | .ok order => order == some .eq
  | .error _ => false

/-- A literal that reads as the type of a value can be put in order with it. -/
theorem order?_of_reads {type : FieldType} {value : Json} {actual : Scalar} {literal : String}
    (hactual : ofJson? type value = some actual)
    (hreads : (ofJson? type (.string literal)).isSome = true) :
    ∃ order, actual.order? literal = .ok order := by
  cases type with
  | numeric =>
    obtain ⟨y, hy⟩ : ∃ y, Number.readTrimmed literal = some y := by
      rw [ofJson?, Option.isSome_map] at hreads
      exact Option.isSome_iff_exists.mp hreads
    obtain ⟨x, rfl⟩ : ∃ x, actual = .number x := by
      cases value with
      | number n =>
        cases hactual
        exact ⟨_, rfl⟩
      | string s =>
        obtain ⟨x, -, rfl⟩ := Option.map_eq_some_iff.mp hactual
        exact ⟨x, rfl⟩
      | _ => cases hactual
    exact ⟨floatOrder? x y, by rw [order?, hy]⟩
  | categorical =>
    cases hactual
    exact ⟨_, rfl⟩
  | text =>
    cases hactual
    exact ⟨_, rfl⟩
  | boolean =>
    obtain ⟨c, hc⟩ : ∃ c, readFlag literal = some c := by
      rw [ofJson?, Option.isSome_map] at hreads
      exact Option.isSome_iff_exists.mp hreads
    obtain ⟨b, rfl⟩ : ∃ b, actual = .flag b := by
      cases value with
      | bool b =>
        cases hactual
        exact ⟨b, rfl⟩
      | string s =>
        obtain ⟨b, -, rfl⟩ := Option.map_eq_some_iff.mp hactual
        exact ⟨b, rfl⟩
      | _ => cases hactual
    exact ⟨some (flagOrder b c), by rw [order?, hc]⟩

end Scalar

namespace Truth

/-- A disjunction of known truths stops at the first that is true, as a search does. -/
theorem any_ofBool (f : String → Bool) (literals : List String) :
    any (literals.map fun literal => ofBool (f literal)) = ofBool (literals.any f) := by
  induction literals with
  | nil => rfl
  | cons literal rest ih =>
    rw [List.map_cons, List.any_cons]
    cases f literal with
    | true => rfl
    | false => exact ih

theorem all_ofBool_not (f : String → Bool) (literals : List String) :
    all (literals.map fun literal => ofBool !f literal) = ofBool !literals.any f := by
  induction literals with
  | nil => rfl
  | cons literal rest ih =>
    rw [List.map_cons, List.any_cons]
    cases f literal with
    | true => rfl
    | false => exact ih

end Truth

namespace Predicate

section Expansion

variable {types : FieldTypes} {record : Record} {field : String} {type : FieldType}

/-- Comparisons of one field with many literals, where each has a truth. -/
theorem evaluateAll_comparisons {operator : Comparison} {truth : String → Truth}
    {literals : List String}
    (h : ∀ literal ∈ literals,
      (Predicate.simple field operator (some literal)).evaluate types record =
        .ok (truth literal)) :
    evaluateAll types record (literals.map fun literal => .simple field operator (some literal)) =
      .ok (literals.map truth) := by
  refine evaluateAll_ok_iff.mpr ?_
  rw [Truths, List.forall₂_map_left_iff, List.forall₂_map_right_iff, List.forall₂_same]
  exact h

section Readable

variable (hdeclared : types.get? field = some type) {value : Json} {actual : Scalar}
  (hvalue : record.value? field = some value) (hactual : Scalar.ofJson? type value = some actual)

include hdeclared hvalue hactual

/-- Equality and its opposite can be asked of every type, flags included. -/
theorem evaluate_equality {operator : Comparison} (hoperator : operator.testsEquality = true)
    {literal : String} (hreads : (Scalar.ofJson? type (.string literal)).isSome = true) :
    (Predicate.simple field operator (some literal)).evaluate types record =
      .ok (.ofBool (if operator = .equal then actual.equals literal
        else !actual.equals literal)) := by
  obtain ⟨order, horder⟩ := Scalar.order?_of_reads hactual hreads
  cases operator with
  | equal | notEqual =>
    simp [evaluate, hdeclared, hvalue, compareValue, hactual, horder, Scalar.equals,
      Comparison.testsPresence, Comparison.testsEquality, Comparison.holds, bne]
  | _ => cases hoperator

end Readable

theorem member_eq_any {actual : Scalar} {value : Json}
    (hactual : Scalar.ofJson? type value = some actual) {literals : List String}
    (hreads : ∀ literal ∈ literals, (Scalar.ofJson? type (.string literal)).isSome = true) :
    member field actual literals = .ok (literals.any actual.equals) := by
  induction literals with
  | nil => rfl
  | cons literal rest ih =>
    obtain ⟨hfirst, hrest⟩ := List.forall_mem_cons.mp hreads
    obtain ⟨order, horder⟩ := Scalar.order?_of_reads hactual hfirst
    simp only [member, horder, List.any_cons, Scalar.equals]
    split
    · rename_i heq
      cases heq
    · rename_i heq
      cases heq
      simp
    · rename_i order' hne heq
      cases heq
      have hother : (order == some .eq) = false := by simpa using hne
      rw [ih hrest, hother, Bool.false_or]

/-- What is compared with no value, or with one that has no reading, is unknown. -/
theorem evaluate_unread (hdeclared : types.get? field = some type)
    (hunread : (record.value? field).bind (Scalar.ofJson? type) = none) {operator : Comparison}
    (hoperator : operator.testsPresence = false) (literal : String) :
    (Predicate.simple field operator (some literal)).evaluate types record = .ok .unknown := by
  cases hvalue : record.value? field with
  | none => simp only [evaluate, hdeclared, hvalue, compareMissing_of_steady hoperator]
  | some value =>
    rw [hvalue, Option.bind_some] at hunread
    simp [evaluate, hdeclared, hvalue, compareValue, hoperator, hunread]

theorem expansion_unread (hdeclared : types.get? field = some type)
    (hunread : (record.value? field).bind (Scalar.ofJson? type) = none) {literals : List String}
    (hne : literals ≠ []) (operator : Membership) :
    (operator.expansion field literals).evaluate types record = .ok .unknown := by
  have hall : ∀ comparison : Comparison, comparison.testsPresence = false →
      evaluateAll types record
          (literals.map fun literal => .simple field comparison (some literal)) =
        .ok (literals.map fun _ => .unknown) := fun comparison hcomparison =>
    evaluateAll_comparisons fun literal _ => evaluate_unread hdeclared hunread hcomparison literal
  -- no operand decides the compound, and there is one that leaves it open
  cases operator with
  | isIn =>
    rw [Membership.expansion, evaluate, hall .equal rfl]
    simp [Connective.combine_eq_verdict, Connective.verdict, hne]
  | isNotIn =>
    rw [Membership.expansion, evaluate, hall .notEqual rfl]
    simp [Connective.combine_eq_verdict, Connective.verdict, hne]

theorem expansion_read (hdeclared : types.get? field = some type) {value : Json} {actual : Scalar}
    (hvalue : record.value? field = some value) (hactual : Scalar.ofJson? type value = some actual)
    {literals : List String}
    (hreads : ∀ literal ∈ literals, (Scalar.ofJson? type (.string literal)).isSome = true)
    (operator : Membership) :
    (operator.expansion field literals).evaluate types record =
      .ok (operator.truth (literals.any actual.equals)) := by
  cases operator with
  | isIn =>
    rw [Membership.expansion, evaluate, evaluateAll_comparisons fun literal hliteral =>
      evaluate_equality hdeclared hvalue hactual rfl (hreads literal hliteral)]
    exact congrArg Except.ok (Truth.any_ofBool actual.equals literals)
  | isNotIn =>
    rw [Membership.expansion, evaluate, evaluateAll_comparisons fun literal hliteral =>
      evaluate_equality hdeclared hvalue hactual rfl (hreads literal hliteral)]
    exact congrArg Except.ok (Truth.all_ofBool_not actual.equals literals)

end Expansion

/-- To be in a list is to equal one of its literals, and not to be in it is to differ from all of
them. The truth is unknown where the field has no value that reads as its type, and only there. -/
theorem evaluate_expansion {types : FieldTypes} {field : String} {type : FieldType}
    (hdeclared : types.get? field = some type) {literals : List String} (hne : literals ≠ [])
    (hreads : ∀ literal ∈ literals, (Scalar.ofJson? type (.string literal)).isSome = true)
    (record : Record) (operator : Membership) :
    (Predicate.set field operator literals).evaluate types record =
        (operator.expansion field literals).evaluate types record ∧
      ∃ t, (Predicate.set field operator literals).evaluate types record = .ok t ∧
        (t = .unknown ↔ (record.value? field).bind (Scalar.ofJson? type) = none) := by
  cases hread : (record.value? field).bind (Scalar.ofJson? type) with
  | none =>
    have hset : (Predicate.set field operator literals).evaluate types record = .ok .unknown := by
      simp only [evaluate, hdeclared, hread]
    exact ⟨hset.trans (expansion_unread hdeclared hread hne operator).symm, .unknown, hset, by simp⟩
  | some actual =>
    obtain ⟨value, hvalue, hactual⟩ := Option.bind_eq_some_iff.mp hread
    have hset : (Predicate.set field operator literals).evaluate types record =
        .ok (operator.truth (literals.any actual.equals)) := by
      simp only [evaluate, hdeclared, hread, member_eq_any hactual hreads]
    refine ⟨hset.trans (expansion_read hdeclared hvalue hactual hreads operator).symm, _, hset, ?_⟩
    cases operator <;> cases literals.any actual.equals <;>
      simp [Membership.truth, Truth.ofBool]

namespace NotANumber

def types : FieldTypes := ⟨[("x", .numeric)]⟩

def literals : List String := [" 5", "NaN", "5.0"]

def record : Record := [("x", .string "nan")]

end NotANumber

open NotANumber in
/-- What is not a number is in no list of numbers, not even in one that holds such a literal. -/
theorem evaluate_expansion_nan :
    (∀ literal ∈ literals, (Scalar.ofJson? .numeric (.string literal)).isSome = true) ∧
      (Predicate.set "x" .isNotIn literals).evaluate types record = .ok .true ∧
      (Predicate.compound .and
        [.simple "x" .notEqual (some " 5"), .simple "x" .notEqual (some "NaN"),
          .simple "x" .notEqual (some "5.0")]).evaluate types record = .ok .true := by
  have hreads : ∀ literal ∈ literals,
      (Scalar.ofJson? .numeric (.string literal)).isSome = true := by
    simp only [literals, List.forall_mem_cons, List.not_mem_nil, false_implies, implies_true,
      and_true]
    decide +kernel
  have heval : (Predicate.set "x" .isNotIn literals).evaluate types record = .ok .true := by
    decide +kernel
  have hdeclared : types.get? "x" = some .numeric := rfl
  have hsame := (evaluate_expansion hdeclared (by simp [literals]) hreads record .isNotIn).1
  exact ⟨hreads, heval, hsame.symm.trans heval⟩

end Predicate

end ScoringTree
