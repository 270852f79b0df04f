import ScoringTree.Proofs.UnitRun

/-!
# ScoringTree.Proofs.Agreement

A generated unit answers with what the interpreter predicts.

This holds for every model and every record as long as both put texts in the same order. Generated
source orders them by code units, the interpreter by characters, and so the two part where a text
and the literal it is compared with straddle the surrogates.

* `ScoringUnit.Agrees`     — the unit answers with the prediction where the constraints are true.
* `ScoringUnit.straddles`  — a record has a text that the unit puts in order and that straddles.
* `Document.unit_agrees`   — the agreement.
-/

namespace ScoringTree

/-! ## Texts put in order -/

/-- Where two orders are opposite, so are the tests for a place in them. -/
theorem Helper.textTest_swap {order order' : String → String → Ordering} {relation : Relation}
    {s t : String} (hrelation : relation.testsEquality = false)
    (hswap : order' s t = (order s t).swap) (hne : order s t ≠ .eq) :
    textTest order' relation s t = !textTest order relation s t := by
  cases relation with
  | eq => cases hrelation
  | ne => cases hrelation
  | lt | le | gt | ge =>
    simp only [textTest, hswap]
    cases hc : order s t with
    | eq => exact absurd hc hne
    | lt => rfl
    | gt => rfl

namespace Condition

variable {record : Record} {condition : Condition}

/-- A text of the record straddles a literal that the condition puts it in order with. -/
def straddles (record : Record) (condition : Condition) : Bool :=
  condition.orderings.any fun test =>
    match record.read? .string test.1 with
    | some (.text s) => Text.straddles s.toList test.2.toList
    | _ => false

theorem value_units (h : condition.straddles record = false) :
    condition.value Text.compareUnits record = condition.value Ord.compare record := by
  refine value_congr condition ?_
  intro test htest s hread
  rw [Text.compareUnits_eq_iff]
  simp only [straddles, List.any_eq_false] at h
  simpa [hread] using h test htest

/-- The value of a test is another in the order of code units exactly where the test straddles. -/
theorem value_units_iff (field : String) (relation : Relation) (literal : String)
    (record : Record) :
    (compare field relation .string (.text literal)).value Text.compareUnits record =
        (compare field relation .string (.text literal)).value Ord.compare record ↔
      (compare field relation .string (.text literal)).straddles record = false := by
  refine ⟨?_, value_units⟩
  intro h
  by_contra hstraddles
  simp only [straddles, orderings, Bool.not_eq_false] at hstraddles
  split at hstraddles
  · simp at hstraddles
  · rename_i hrelation
    simp only [List.any_cons, List.any_nil, Bool.or_false] at hstraddles
    split at hstraddles
    · rename_i s hread
      have hswap := Text.compareUnits_eq s literal
      rw [if_pos hstraddles] at hswap
      have hne : Ord.compare s literal ≠ .eq := fun heq =>
        Text.straddles_ne hstraddles (congrArg String.toList (Std.LawfulEqOrd.eq_of_compare heq))
      simp only [value, hread, Option.bind_some, Helper.test, Option.some.injEq,
        Helper.textTest_swap (Bool.eq_false_iff.mpr hrelation) hswap hne] at h
      simp at h
    · cases hstraddles

end Condition

/-! ## Units in two orders -/

def MethodBody.conditions : MethodBody → List Condition
  | .leaf _ => []
  | .choice steps _ => steps.map (·.condition)

namespace ScoringUnit

/-- Every condition that a unit can test. -/
def conditions (unit : ScoringUnit) : List Condition :=
  unit.guards ++ unit.rootCondition.toList ++ unit.methods.flatMap (·.body.conditions)

/-- A record has a text that the unit puts in order and that straddles. -/
def straddles (unit : ScoringUnit) (record : Record) : Bool :=
  unit.conditions.any (·.straddles record)

end ScoringUnit

section TwoOrders

variable {order order' : String → String → Ordering} {record : Record}

theorem UnitStep.choose_congr (fallback : Reply) : ∀ steps : List UnitStep,
    (∀ step ∈ steps, step.condition.value order record = step.condition.value order' record) →
    UnitStep.choose order record steps fallback = UnitStep.choose order' record steps fallback
  | [], _ => rfl
  | step :: rest, h => by
    simp only [choose, h step List.mem_cons_self]
    rw [choose_congr fallback rest fun s hs => h s (List.mem_cons_of_mem _ hs)]

namespace ScoringUnit

variable {unit : ScoringUnit}

theorem runMethod_congr
    (h : ∀ c ∈ unit.conditions, c.value order record = c.value order' record) :
    ∀ fuel node,
      unit.runMethod order record fuel node = unit.runMethod order' record fuel node := by
  have hreact : ∀ method ∈ unit.methods,
      method.body.react order record = method.body.react order' record := by
    intro method hmethod
    cases hbody : method.body with
    | leaf reply => rfl
    | choice steps fallback =>
      refine UnitStep.choose_congr fallback steps fun step hstep => h step.condition ?_
      refine List.mem_append_right _ (List.mem_flatMap.mpr ⟨method, hmethod, ?_⟩)
      rw [hbody]
      exact List.mem_map_of_mem hstep
  intro fuel
  induction fuel with
  | zero => intro node; rfl
  | succ fuel ih =>
    intro node
    simp only [runMethod]
    cases hfind : unit.method? node with
    | none => rfl
    | some method =>
      simp only [hreact method (List.mem_of_find?_eq_some hfind)]
      cases method.body.react order' record with
      | reply reply => rfl
      | descend next => exact ih next

theorem run_congr (h : ∀ c ∈ unit.conditions, c.value order record = c.value order' record)
    (fuel : Nat) : unit.run order record fuel = unit.run order' record fuel := by
  have hguards : ((unit.guards ++ unit.rootCondition.toList).all fun c =>
        Helper.isTrue (c.value order record)) =
      (unit.guards ++ unit.rootCondition.toList).all fun c =>
        Helper.isTrue (c.value order' record) := by
    rw [Bool.eq_iff_iff, List.all_eq_true, List.all_eq_true]
    refine forall₂_congr fun c hc => ?_
    rw [h c (List.mem_append_left _ hc)]
  rw [run, run, hguards, runMethod_congr h]

/-- The unit answers with the prediction `result` where all constraints are true, and with none
where one is not. -/
structure Agrees (order : String → String → Ordering) (record : Record) (unit : ScoringUnit)
    (tree : Tree) (types : FieldTypes) (constraints : List Predicate)
    (result : Option Prediction) : Prop where
  outcome : ∀ k, unit.Answers order record (some k) ↔
    (∀ p ∈ constraints, p.evaluate types record = .ok .true) ∧
      ∃ node, tree.node? k = some node ∧ result = some node.prediction
  nothing : unit.Answers order record none ↔
    (∃ p ∈ constraints, ∃ t, p.evaluate types record = .ok t ∧ t ≠ .true) ∨ result = none

theorem Agrees.congr {tree : Tree} {types : FieldTypes} {constraints : List Predicate}
    {result : Option Prediction} (hagrees : unit.Agrees order record tree types constraints result)
    (h : ∀ c ∈ unit.conditions, c.value order' record = c.value order record) :
    unit.Agrees order' record tree types constraints result := by
  have hanswers : ∀ reply, unit.Answers order' record reply ↔ unit.Answers order record reply :=
    fun reply => exists_congr fun fuel => by rw [run_congr h]
  exact ⟨fun k => (hanswers _).trans (hagrees.outcome k), (hanswers _).trans hagrees.nothing⟩

end ScoringUnit

end TwoOrders

/-! ## Agreement -/

namespace Tree

/-- A prediction names its node. -/
theorem predictionAt_inj {tree : Tree} (hids : (tree.nodes.map (·.id)).Nodup) {reply : Reply}
    {k : Nat} {node : Node} (hnode : tree.node? k = some node)
    (h : tree.predictionAt reply = some node.prediction) : reply = some k := by
  obtain ⟨k', rfl, hk'⟩ := Option.bind_eq_some_iff.mp h
  obtain ⟨node', hnode', hprediction⟩ := Option.map_eq_some_iff.mp hk'
  rw [node?_id_inj hids hnode' hnode (congrArg Prediction.nodeId hprediction)]

theorem Compiled.agrees {tree : Tree} {table : FieldTable} {constraints : List Predicate}
    {ruleSet : RuleSet} {types : FieldTypes} (h : tree.Compiled table constraints ruleSet types)
    {unit : ScoringUnit} {root : Branch} {node : Node} (hunit : unit.Follows ruleSet root)
    (hnode : tree.node? 0 = some node) (hbranch : tree.IsBranch table 0 node root)
    (record : Record) :
    ∃ result, tree.evaluate types (.object record) = .ok result ∧
      unit.Agrees compare record tree types constraints result := by
  obtain ⟨result, reply, heval, hrun, hinside, hpass, hfail⟩ :=
    h.evaluate_run hunit hnode hbranch record
  obtain ⟨-, hids, -⟩ := derive_ok h.derived
  obtain ⟨htruths, -⟩ := h.guards_true record
  -- an outcome is given only where the constraints are true, and it is that of a node
  have hgiven : ∀ k, reply = some k → (∀ p ∈ constraints, p.evaluate types record = .ok .true) ∧
      ∃ target, tree.node? k = some target ∧ result = some target.prediction := by
    rintro k rfl
    have hall : ∀ p ∈ constraints, p.evaluate types record = .ok .true := by
      by_contra hnot
      cases hfail hnot
    obtain ⟨target, htarget⟩ := exists_node (hinside k rfl)
    exact ⟨hall, target, htarget, by rw [hpass hall]; simp [predictionAt, htarget]⟩
  refine ⟨result, heval, ?_, ?_⟩
  · intro k
    rw [ScoringUnit.answers_iff hrun]
    constructor
    · intro hreply
      exact hgiven k hreply.symm
    · rintro ⟨hall, target, htarget, hresult⟩
      rw [hpass hall] at hresult
      exact (predictionAt_inj hids htarget hresult).symm
  · rw [ScoringUnit.answers_iff hrun]
    constructor
    · rintro rfl
      by_cases hall : ∀ p ∈ constraints, p.evaluate types record = .ok .true
      · exact Or.inr (hpass hall)
      · left
        push Not at hall
        obtain ⟨p, hp, hnot⟩ := hall
        obtain ⟨t, ht⟩ := htruths p hp
        exact ⟨p, hp, t, ht, fun htrue => hnot (by rw [ht, htrue])⟩
    · rintro (⟨p, hp, t, ht, hnot⟩ | hnone)
      · refine (hfail fun hall => hnot ?_).symm
        have := hall p hp
        rw [ht] at this
        cases this
        rfl
      · cases reply with
        | none => rfl
        | some k =>
          obtain ⟨-, target, -, hresult⟩ := hgiven k rfl
          rw [hnone] at hresult
          cases hresult

end Tree

/-- The unit of a model agrees with the interpreter, which never fails on the model's records, as
long as no text straddles a literal that it is put in order with; the tests that straddle are those
on which the two differ. -/
theorem Document.unit_agrees {document : Document} {table : FieldTable} {tree : Tree}
    {constraints : List Predicate} {ruleSet : RuleSet}
    (hresolve : document.dictionaries.resolve = .ok table) (htree : document.toTree = .ok tree)
    (hderive : tree.derive table constraints = .ok ruleSet) (frame : Source.Skeleton)
    (package : String) (record : Record) :
    ∃ types unit result, document.fieldTypes = .ok types ∧
      ruleSet.unit? frame package = some unit ∧
      tree.evaluate types (.object record) = .ok result ∧
      unit.Agrees compare record tree types constraints result ∧
      (unit.straddles record = false →
        unit.Agrees Text.compareUnits record tree types constraints result) ∧
      ∀ field relation literal,
        (Condition.compare field relation .string (.text literal)).value Text.compareUnits record ≠
            (Condition.compare field relation .string (.text literal)).value compare record ↔
          (Condition.compare field relation .string (.text literal)).straddles record = true := by
  obtain ⟨types, htypes, hcompiled⟩ := Document.compiled hresolve htree hderive
  obtain ⟨root, node, unit, hunit, hfollows, hnode, hbranch⟩ := hcompiled.exists_unit frame package
  obtain ⟨result, heval, hagrees⟩ := hcompiled.agrees hfollows hnode hbranch record
  refine ⟨types, unit, result, htypes, hunit, heval, hagrees, ?_, ?_⟩
  · intro hplain
    refine hagrees.congr fun c hc => Condition.value_units ?_
    exact Bool.eq_false_iff.mpr (List.any_eq_false.mp hplain c hc)
  · intro field relation literal
    rw [ne_eq, Condition.value_units_iff, Bool.not_eq_false]

theorem Document.unit_agrees_parting :
    Parting.document.dictionaries.resolve = .ok Parting.table ∧
      Parting.document.toTree = .ok Parting.tree ∧
      Parting.tree.derive Parting.table [] = .ok Parting.ruleSet ∧
      ∃ types unit result, Parting.document.fieldTypes = .ok types ∧
        Parting.ruleSet.unit? .standard "units" = some unit ∧
        Parting.tree.evaluate types (.object [("t", .string "x")]) = .ok result ∧
        unit.Agrees Text.compareUnits [("t", .string "x")] Parting.tree types [] result := by
  refine ⟨Parting.resolve_eq, Parting.toTree_eq, Parting.derive_eq, ?_⟩
  obtain ⟨types, unit, result, htypes, hunit, heval, -, hplain, -⟩ :=
    Document.unit_agrees Parting.resolve_eq Parting.toTree_eq Parting.derive_eq .standard "units"
      [("t", .string "x")]
  refine ⟨types, unit, result, htypes, hunit, heval, hplain ?_⟩
  cases hunit
  decide +kernel

/-- A character of two units stands before U+FF5E for the unit and behind it for the interpreter. -/
theorem Document.unit_disagrees_parting :
    Parting.document.dictionaries.resolve = .ok Parting.table ∧
      Parting.document.fieldTypes = .ok Parting.types ∧
      Parting.document.toTree = .ok Parting.tree ∧
      Parting.tree.derive Parting.table [] = .ok Parting.ruleSet ∧
      ∃ unit, Parting.ruleSet.unit? .standard "units" = some unit ∧
        unit.Answers Text.compareUnits [("t", .string "😀")] (some 1) ∧
        Parting.tree.evaluate Parting.types (.object [("t", .string "😀")]) =
          .ok (some ⟨"2", some "b", []⟩) := by
  refine ⟨Parting.resolve_eq, Parting.fieldTypes_eq, Parting.toTree_eq, Parting.derive_eq, _, rfl,
    ⟨2, ?_⟩, ?_⟩
  · decide +kernel
  · decide +kernel

end ScoringTree
