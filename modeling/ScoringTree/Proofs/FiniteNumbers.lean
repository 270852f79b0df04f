import ScoringTree.Compilation
import ScoringTree.Proofs.ClassNames
import ScoringTree.Proofs.FloatQuotient
import ScoringTree.Proofs.HeaderComment
import ScoringTree.Proofs.Translation
import ScoringTree.Proofs.UnitWords

/-!
# ScoringTree.Proofs.FiniteNumbers

Which numbers of a generated unit are finite.

Literals and scores are checked where they are read. Shares of labels are not: a share that is given
is taken as it is, and one that is computed is the quotient of two counts and may overflow.

* `Predicate.typed_finite`     — the literals of a condition are finite.
* `NodeContent.share`          — the share of a label, and when it is finite.
* `ScoringUnit.scoringCode`    — the code that scores; all other lines hold names and texts.
* `Lone`                       — models of a single leaf worked out.
* `Request.compile_numbers`    — the numbers of a compiled model, and what one sees of them in the
                                 lines of its unit.
-/

namespace ScoringTree

open Number (isFinite magnitude overflowBound)

/-! ## Literals -/

namespace Literal

theorem finite_ofText {type : SourceType} {raw : String} {literal : Literal}
    (h : ofText type raw = .ok literal) : ∀ x ∈ literal.numbers, isFinite x = true := by
  intro x hx
  cases type with
  | double =>
    simp only [ofText] at h
    split at h
    · split at h
      · rename_i y _ hfinite
        cases h
        rw [numbers, List.mem_singleton] at hx
        rw [hx]
        exact hfinite
      · cases h
    · cases h
  | string =>
    cases h
    cases hx
  | boolean =>
    simp only [ofText] at h
    split at h
    · cases h
      cases hx
    · cases h

theorem finite_ofTexts {type : SourceType} {raws : List String} {literals : List Literal}
    (h : ofTexts type raws = .ok literals) :
    ∀ x ∈ literals.flatMap numbers, isFinite x = true := by
  induction raws generalizing literals with
  | nil =>
    cases h
    exact List.forall_mem_nil _
  | cons raw raws ih =>
    simp only [ofTexts] at h
    split at h
    · cases h
    · rename_i literal hliteral
      split at h
      · cases h
      · rename_i rest hrest
        cases h
        rw [List.flatMap_cons]
        exact List.forall_mem_append.mpr ⟨finite_ofText hliteral, ih hrest⟩

end Literal

namespace Predicate

theorem typedSimple_finite {type : SourceType} {field : String} {operator : Comparison}
    {value : Option String} {condition : Condition}
    (h : typedSimple type field operator value = .ok condition) : condition.Finite := by
  rcases typedSimple_cases h with (rfl | rfl) | ⟨relation, raw, literal, rfl, hliteral, -⟩
  · exact List.forall_mem_nil _
  · exact List.forall_mem_nil _
  · exact Literal.finite_ofText hliteral

mutual

/-- A condition compares with finite numbers only. -/
theorem typed_finite {table : FieldTable} : ∀ (p : Predicate) {condition : Condition},
    p.typed table = .ok condition → condition.Finite
  | .always, _, h => by
    cases h
    exact List.forall_mem_nil _
  | .never, _, h => by
    cases h
    exact List.forall_mem_nil _
  | .simple field operator value, _, h => by
    simp only [typed] at h
    split at h
    · cases h
    · split at h
      · rename_i hsimple
        cases h
        exact typedSimple_finite hsimple
      · cases h
  | .set field operator values, _, h => by
    simp only [typed] at h
    split at h
    · cases h
    · split at h
      · rename_i literals hliterals
        cases h
        exact Literal.finite_ofTexts hliterals
      · cases h
  | .compound operator [], _, h => by cases h
  | .compound operator (p :: ps), _, h => by
    simp only [typed] at h
    split at h
    · cases h
    · rename_i c hc
      split at h
      · cases h
      · rename_i cs hcs
        cases h
        exact List.forall_mem_append.mpr ⟨typed_finite p hc, typedAll_finite ps hcs⟩

theorem typedAll_finite {table : FieldTable} :
    ∀ (ps : List Predicate) {conditions : List Condition},
      typedAll table ps = .ok conditions →
        ∀ x ∈ Condition.numbersAll conditions, isFinite x = true
  | [], _, h => by
    cases h
    exact List.forall_mem_nil _
  | p :: ps, _, h => by
    simp only [typedAll] at h
    split at h
    · cases h
    · rename_i c hc
      split at h
      · cases h
      · rename_i cs hcs
        cases h
        exact List.forall_mem_append.mpr ⟨typed_finite p hc, typedAll_finite ps hcs⟩

end

end Predicate

theorem Tree.finite_scoreLiteral (function : MiningFunction) (score : String) :
    ∀ x ∈ (scoreLiteral function score).numbers, isFinite x = true := by
  intro x hx
  cases function with
  | classification => cases hx
  | regression =>
    simp only [scoreLiteral] at hx
    split at hx
    · split at hx
      · rename_i hfinite
        rw [Literal.numbers, List.mem_singleton] at hx
        rw [hx]
        exact hfinite
      · cases hx
    · cases hx

/-! ## Shares -/

/-- The share of a label among that many records is finite: it is given so, or the count stays
below the bound for quotients. -/
def Distribution.HasFiniteShare (d : Distribution) (total : Float) : Prop :=
  match d.confidence with
  | some share => isFinite share = true
  | none =>
    0.0 < total → isFinite d.recordCount = true ∧
      (isFinite total = true → magnitude d.recordCount < overflowBound * magnitude total)

namespace NodeContent

def share (content : NodeContent) (d : Distribution) : Float :=
  match d.confidence with
  | some share => share
  | none => if content.total > 0.0 then d.recordCount / content.total else 0.0

theorem confidences_eq (content : NodeContent) :
    content.confidences = content.distributions.map fun d => (d.label, content.share d) :=
  rfl

theorem isFinite_share_iff (content : NodeContent) (d : Distribution) :
    isFinite (content.share d) = true ↔ d.HasFiniteShare content.total := by
  rw [share, Distribution.HasFiniteShare]
  cases d.confidence with
  | some share => exact Iff.rfl
  | none =>
    by_cases htotal : 0.0 < content.total
    · simp only [gt_iff_lt, htotal, if_true, true_imp_iff]
      exact Number.isFinite_div_iff htotal
    · have hzero : isFinite 0.0 = true := by decide +kernel
      simp only [gt_iff_lt, htotal, if_false, hzero, false_imp_iff]

end NodeContent

/-! ## Units of trees -/

namespace Tree

theorem IsBranch.finite {tree : Tree} {table : FieldTable} {index : Nat} {node : Node}
    {branch : Branch} (h : tree.IsBranch table index node branch) :
    ∀ c ∈ branch.condition, c.Finite := by
  intro c hc
  have htyped := h.condition_eq
  rw [Option.mem_def.mp hc, Option.map_some] at htyped
  obtain ⟨p, -, hp⟩ := Option.map_eq_some_iff.mp htyped
  exact p.typed_finite hp

theorem guards_finite {table : FieldTable} {constraints : List Predicate} {guards : List Condition}
    (h : List.Forall₂ (fun p c => p.typed table = .ok c) constraints guards) :
    ∀ c ∈ guards, c.Finite := by
  induction h with
  | nil => exact List.forall_mem_nil _
  | cons hp _ ih => exact List.forall_mem_cons.mpr ⟨Predicate.typed_finite _ hp, ih⟩

section Derived

variable {tree : Tree} {table : FieldTable} {constraints : List Predicate} {ruleSet : RuleSet}

theorem branch_finite (h : tree.derive table constraints = .ok ruleSet) :
    ∀ branch ∈ ruleSet.branches, ∀ c ∈ branch.condition, c.Finite := by
  intro branch hbranch
  obtain ⟨node, -, hisBranch, -⟩ := derive_vouched h branch hbranch
  exact hisBranch.finite

/-- A method tests the conditions of branches, and what is always true in place of one that a branch
does not have. -/
theorem method_finite (h : tree.derive table constraints = .ok ruleSet) (branch : Branch) :
    ∀ c ∈ (ruleSet.method branch).body.conditions, c.Finite := by
  intro c hc
  rw [RuleSet.method] at hc
  split at hc
  · cases hc
  · simp only [MethodBody.conditions, List.map_map, List.mem_map, List.mem_filterMap] at hc
    obtain ⟨child, ⟨index, -, hindex⟩, rfl⟩ := hc
    have hchild : child ∈ ruleSet.branches := List.mem_of_getElem? hindex
    cases hcondition : child.condition with
    | none =>
      simp only [Function.comp_apply, Branch.step, hcondition, Option.getD_none]
      exact List.forall_mem_nil _
    | some c =>
      simp only [Function.comp_apply, Branch.step, hcondition, Option.getD_some]
      exact branch_finite h child hchild c hcondition

theorem conditions_finite (h : tree.derive table constraints = .ok ruleSet) {unit : ScoringUnit}
    {root : Branch} {node : Node} (hunit : unit.Follows ruleSet root)
    (hroot : tree.IsBranch table 0 node root) : ∀ c ∈ unit.conditions, c.Finite := by
  obtain ⟨-, -, hguards, -⟩ := derive_ok h
  intro c hc
  rw [ScoringUnit.conditions, hunit.guards_eq, hunit.rootCondition_eq, hunit.methods_eq,
    List.mem_append, List.mem_append, Option.mem_toList, List.mem_flatMap] at hc
  rcases hc with (hc | hc) | ⟨method, hmethod, hc⟩
  · exact guards_finite (typedGuards_ok hguards) c hc
  · exact hroot.finite c hc
  · obtain ⟨branch, -, rfl⟩ := List.mem_map.mp hmethod
    exact method_finite h branch c hc

/-- The outcome of a node has a finite score, if that is a number, and the shares of the node. -/
theorem outcomes_shares (h : tree.derive table constraints = .ok ruleSet) :
    ∀ outcome ∈ ruleSet.branches.filterMap (·.outcome),
      (∀ x ∈ outcome.score.numbers, isFinite x = true) ∧
      ∃ node, tree.node? outcome.node = some node ∧
        outcome.confidences = node.distributions.map fun d => (d.label, node.share d) := by
  intro outcome houtcome
  obtain ⟨branch, hbranch, hout⟩ := List.mem_filterMap.mp houtcome
  obtain ⟨node, hnode, hisBranch, -⟩ := derive_vouched h branch hbranch
  have hmade : tree.outcome? branch.node node = some outcome := hisBranch.outcome_eq.symm.trans hout
  obtain ⟨score, -, rfl⟩ := Option.map_eq_some_iff.mp hmade
  exact ⟨finite_scoreLiteral _ score, node, hnode, node.confidences_eq⟩

end Derived

end Tree

/-! ## Lines of units -/

namespace ScoringUnit

open Source Code

/-- The code that scores. -/
def scoringCode (unit : ScoringUnit) : List Code :=
  unit.outcomes.map outcomeCode ++
    unit.evaluateCode :: (unit.methods.map methodCode ++ outcomeClass :: helpers)

/-- The lines of the package, the imports, the comment, the head of the class and the constructor.
They hold names and texts of the model and of the skeleton. -/
def namingLines (unit : ScoringUnit) : List String :=
  linesAll 0 unit.preamble ++ (unit.classHead ++ " \x7b") ::
    linesAll 1 ((Text.lines unit.frame.constructor.print).map Code.line)

variable {unit : ScoringUnit} {line : String}

theorem mem_code : line ∈ linesAll 0 unit.code ↔
    line ∈ linesAll 0 unit.preamble ∨ line = unit.classHead ++ " \x7b" ∨
      line ∈ linesAll 1 unit.classBody ∨ line = "\x7d" := by
  rw [code_eq, linesAll_append, linesAll, linesAll, lines, indented_zero, indented_zero]
  simp only [List.mem_append, List.mem_cons, List.append_nil, List.not_mem_nil, or_false,
    zero_add]

/-- The class has code that scores, the constructor and blank lines. -/
theorem mem_classBody {code : Code} (h : code ∈ unit.classBody) :
    code = .blank ∨ code ∈ unit.scoringCode ∨
      code ∈ (Text.lines unit.frame.constructor.print).map Code.line := by
  rw [classBody, List.mem_cons, List.mem_append, List.mem_cons, List.mem_append, List.mem_cons] at h
  rcases h with h | h | h | h | h | h
  · exact Or.inl h
  · exact Or.inr (Or.inl (List.mem_append_left _ h))
  · exact Or.inl h
  · exact Or.inr (Or.inr h)
  · exact Or.inl h
  · exact (mem_spaced h).imp_right fun hscoring => Or.inl (List.mem_append_right _ hscoring)

/-- Lines that do not name hold code that scores, or no word at all. -/
theorem mem_lines_cases (h : line ∈ linesAll 0 unit.code) :
    line ∈ unit.namingLines ∨ nonNumeral line = false ∨
      ∃ code ∈ unit.scoringCode, line ∈ code.lines 1 := by
  rw [namingLines, List.mem_append, List.mem_cons]
  rcases mem_code.mp h with h | h | h | h
  · exact Or.inl (Or.inl h)
  · exact Or.inl (Or.inr (Or.inl h))
  · obtain ⟨code, hcode, hline⟩ := mem_linesAll.mp h
    rcases mem_classBody hcode with rfl | hcode | hcode
    · exact Or.inr (Or.inl (free_blank 1 line hline))
    · exact Or.inr (Or.inr ⟨code, hcode, hline⟩)
    · exact Or.inl (Or.inr (Or.inr (mem_linesAll.mpr ⟨code, hcode, hline⟩)))
  · rw [h]
    exact Or.inr (Or.inl (Scan.ends_written rfl).nonNumeral_eq)

theorem outcome_mem_lines {outcome : Outcome} (h : outcome ∈ unit.outcomes)
    (hline : line ∈ (outcomeCode outcome).lines 1) : line ∈ linesAll 0 unit.code := by
  refine mem_code.mpr (Or.inr (Or.inr (Or.inl (mem_linesAll.mpr ⟨_, ?_, hline⟩))))
  exact List.mem_cons_of_mem _ (List.mem_append_left _ (List.mem_map_of_mem h))

/-- Of the code that scores, only outcomes can have one of the two words. -/
theorem scoringCode_cases (hfinite : ∀ c ∈ unit.conditions, c.Finite) {code : Code}
    (h : code ∈ unit.scoringCode) :
    Free code ∨ ∃ outcome ∈ unit.outcomes, code = outcomeCode outcome := by
  obtain ⟨hguards, hmethods⟩ := List.forall_mem_append.mp hfinite
  rw [scoringCode, List.mem_append, List.mem_cons, List.mem_append] at h
  rcases h with h | rfl | h | h
  · obtain ⟨outcome, houtcome, rfl⟩ := List.mem_map.mp h
    exact Or.inr ⟨outcome, houtcome, rfl⟩
  · exact Or.inl (free_evaluateCode hguards)
  · obtain ⟨method, hmethod, rfl⟩ := List.mem_map.mp h
    refine Or.inl (free_methodCode fun c hc => hmethods c ?_)
    exact List.mem_flatMap.mpr ⟨method, hmethod, hc⟩
  · exact Or.inl (free_support code h)

/-- If the score is finite, a word for a float without a numeral comes from a share. -/
theorem nonNumeral_outcome_iff {outcome : Outcome}
    (hscore : ∀ x ∈ outcome.score.numbers, isFinite x = true)
    (hline : line ∈ (outcomeCode outcome).lines 1) :
    nonNumeral line = true ↔ ∃ share ∈ outcome.confidences, isFinite share.2 = false := by
  rw [nonNumeral_outcomeCode outcome hline, anyNonFinite_append, anyNonFinite_eq_false hscore,
    Bool.false_or, anyNonFinite, List.any_map, List.any_eq_true]
  simp only [Function.comp_apply, Bool.not_eq_true']

end ScoringUnit

/-! ## Models of a single leaf -/

/-- A model whose root is its only node. -/
structure Lone where
  data : List DataField
  settings : Settings
  score : String
  recordCount : Option Float
  distributions : List Distribution

namespace Lone

open Source Code

section Leaf

variable (lone : Lone)

def content : NodeContent := ⟨none, some lone.score, lone.recordCount, lone.distributions, none⟩

def document : Document :=
  { dataDictionary := lone.data, transformations := [], settings := lone.settings,
    root := some ⟨lone.content, some "0", []⟩ }

def tree : Tree := { lone.settings with nodes := [⟨lone.content, "0", []⟩] }

def request (constraints : List Predicate) : Request := ⟨lone.data, [], lone.tree, constraints⟩

def outcome : Outcome :=
  ⟨0, "0", Tree.scoreLiteral lone.settings.function lone.score, lone.content.confidences⟩

def ruleSet (guards : List Condition) : RuleSet :=
  { modelName := lone.settings.modelName,
    rules := [Tree.ruleOf [⟨0, "0", none⟩] guards lone.outcome],
    branches := [⟨0, "0", none, some lone.outcome, [], none⟩], guards,
    onMissing := lone.settings.onMissing, onNoMatch := lone.settings.onNoMatch }

theorem ofDocument_eq (constraints : List Predicate) :
    Request.ofDocument lone.document constraints = .ok (lone.request constraints) :=
  rfl

variable {lone} {table : FieldTable} {constraints : List Predicate} {guards : List Condition}

theorem derive_eq (hguards : lone.tree.typedGuards table constraints = .ok guards) :
    lone.tree.derive table constraints = .ok (lone.ruleSet guards) := by
  have hids : Tree.repeatedId? [] lone.tree.nodes = none := rfl
  have hsize : lone.tree.size = 1 := rfl
  have hwalk : lone.tree.walk table guards 1 [] 0 =
      .ok ⟨(lone.ruleSet guards).branches, (lone.ruleSet guards).rules⟩ := by
    rw [Tree.walk]
    rfl
  rw [Tree.derive, hids]
  simp only [hguards, hsize, Tree.visit_start hwalk]
  rw [ruleSet, List.mergeSort_singleton]
  rfl

/-- The model compiles if its fields can be resolved and the constraints can be typed. -/
theorem exists_unit
    (hresolve : Dictionaries.resolve ⟨lone.data, [], lone.settings.locals⟩ = .ok table)
    (hguards : lone.tree.typedGuards table constraints = .ok guards) :
    ∃ unit model, (lone.request constraints).unit .standard = .ok unit ∧
      (lone.request constraints).compile .standard = .ok model ∧
      unit.outcomes = [lone.outcome] ∧ unit.guards = guards := by
  have hrules : (lone.request constraints).rules = .ok (lone.ruleSet guards) := by
    simp only [Request.rules, Request.dictionaries, request]
    rw [show lone.tree.locals = lone.settings.locals from rfl, hresolve]
    simp only [Except.mapError, bind, Except.bind]
    rw [derive_eq hguards]
  obtain ⟨frame, hframe⟩ : ∃ frame, Skeleton.standard.bind (.ofTree lone.tree) = .ok frame :=
    ⟨_, rfl⟩
  obtain ⟨unit, hunit, houtcomes, hguarded⟩ : ∃ unit,
      (lone.ruleSet guards).unit? frame CompileOptions.standard.package = some unit ∧
        unit.outcomes = [lone.outcome] ∧ unit.guards = guards := ⟨_, rfl, rfl, rfl⟩
  have hmade : (lone.request constraints).unit .standard = .ok unit := by
    simp only [Request.unit, hrules, bind, Except.bind]
    rw [show CompileOptions.standard.skeleton = Skeleton.standard from rfl, request, hframe]
    simp only [Except.mapError, hunit]
  have hcompile : (lone.request constraints).compile .standard =
      .ok ⟨lone.settings.modelName, Sources.empty.insert unit.qualifiedName unit.text⟩ := by
    simp only [Request.compile, hmade, bind, Except.bind]
    rfl
  exact ⟨unit, _, hmade, hcompile, houtcomes, hguarded⟩

end Leaf

/-- A regression whose shares are three quarters, which is computed, and one quarter. -/
def quarters : Lone :=
  { data := [⟨"x", "double", []⟩],
    settings := { Settings.named "quarters" with function := .regression },
    score := "0.5", recordCount := some 4.0,
    distributions := [⟨"a", 3.0, none⟩, ⟨"b", 1.0, some 0.25⟩] }

theorem outcome_quarters :
    quarters.outcome = ⟨0, "0", .number 0.5, [("a", 0.75), ("b", 0.25)]⟩ := by decide +kernel

theorem exists_unit_quarters :
    ∃ unit model,
      (quarters.request [.simple "x" .lessThan (some "1.5")]).unit .standard = .ok unit ∧
      (quarters.request [.simple "x" .lessThan (some "1.5")]).compile .standard = .ok model ∧
      unit.outcomes = [quarters.outcome] ∧
      unit.guards = [.compare "x" .lt .double (.number 1.5)] := by
  have hnumeric : FieldType.read "double" = .ok .numeric := by decide +kernel
  have hbound : Literal.ofText .double "1.5" = .ok (.number 1.5) := by decide +kernel
  have htyped : quarters.tree.typedGuards ⟨[("x", ⟨.numeric, .double, .data, []⟩)]⟩
      [.simple "x" .lessThan (some "1.5")] = .ok [.compare "x" .lt .double (.number 1.5)] := by
    have hsimple : Predicate.typedSimple .double "x" .lessThan (some "1.5") =
        .ok (.compare "x" .lt .double (.number 1.5)) := by
      simp [Predicate.typedSimple, Comparison.relation?, hbound]
    have hfield : FieldTable.get? ⟨[("x", ⟨.numeric, .double, .data, []⟩)]⟩ "x" =
        some ⟨.numeric, .double, .data, []⟩ := rfl
    simp only [Tree.typedGuards, Predicate.typedAt, Predicate.typed, hfield, hsimple]
  exact exists_unit (Parting.resolve_single "x" "double" hnumeric).1 htyped

/-- A count of records so small that the share of the label is an infinity. -/
def overflow : Lone :=
  { data := [], settings := Settings.named "overflow", score := "a", recordCount := some 1e-300,
    distributions := [⟨"a", 1e10, none⟩] }

theorem exists_unit_overflow :
    ∃ unit model, (overflow.request []).unit .standard = .ok unit ∧
      (overflow.request []).compile .standard = .ok model ∧ unit.outcomes = [overflow.outcome] := by
  have hresolve : Dictionaries.resolve ⟨[], [], []⟩ = .ok ⟨[]⟩ := by
    simp [Dictionaries.resolve, Dictionaries.merge, bind, Except.bind, FieldTable.overlay,
      FieldTable.empty, FieldTable.undefined?, FieldTable.checkCycles, FieldTable.size,
      FieldTable.visitAll]
  have htyped : overflow.tree.typedGuards ⟨[]⟩ [] = .ok [] := rfl
  obtain ⟨unit, model, hunit, hcompile, houtcomes, -⟩ := exists_unit hresolve htyped
  exact ⟨unit, model, hunit, hcompile, houtcomes⟩

end Lone

/-! ## Compiled models -/

namespace Request

open Source Code ScoringUnit

theorem compile_ok {request : Request} {options : CompileOptions} {model : CompiledModel}
    (h : request.compile options = .ok model) :
    ∃ table ruleSet frame unit, request.tree.derive table request.constraints = .ok ruleSet ∧
      ruleSet.unit? frame options.package = some unit ∧ request.unit options = .ok unit ∧
      model.sources.units = [(unit.qualifiedName, unit.text)] := by
  obtain ⟨unit, hunit, h⟩ := bind_ok h
  cases h
  obtain ⟨ruleSet, hrules, hmade⟩ := bind_ok hunit
  obtain ⟨frame, -, hmade⟩ := bind_ok hmade
  obtain ⟨table, -, hderive⟩ := bind_ok hrules
  split at hmade
  · rename_i hsome
    cases hmade
    exact ⟨table, ruleSet, frame, unit, mapError_ok hderive, hsome, hunit, rfl⟩
  · cases hmade

/-- A compiled model has one unit. Its conditions compare with finite numbers, and its scores that
are numbers are finite. The confidences of an outcome are the shares of the labels at its node; a
share is finite exactly if it is given so or stays below the bound for quotients. Apart from the
lines that name, a line has one of the words for floats without a numeral exactly if it is that of
an outcome with a share that is not finite. -/
theorem compile_numbers {document : Document} {constraints : List Predicate} {request : Request}
    {options : CompileOptions} {model : CompiledModel}
    (hrequest : Request.ofDocument document constraints = .ok request)
    (hcompile : request.compile options = .ok model) :
    ∃ unit, request.unit options = .ok unit ∧
      model.sources.units =
        [(unit.qualifiedName, String.join ((linesAll 0 unit.code).map (· ++ "\n")))] ∧
      (∀ c ∈ unit.conditions, c.Finite) ∧
      (∀ outcome ∈ unit.outcomes, (∀ x ∈ outcome.score.numbers, isFinite x = true) ∧
        ∃ node, request.tree.node? outcome.node = some node ∧
          outcome.confidences = (node.distributions.map fun d => (d.label, node.share d)) ∧
          ∀ d ∈ node.distributions,
            isFinite (node.share d) = true ↔ d.HasFiniteShare node.total) ∧
      (∀ line ∈ linesAll 0 unit.code, line ∉ unit.namingLines → nonNumeral line = true →
        ∃ outcome ∈ unit.outcomes, line ∈ (outcomeCode outcome).lines 1) ∧
      ∀ outcome ∈ unit.outcomes, ∀ line ∈ (outcomeCode outcome).lines 1,
        line ∈ linesAll 0 unit.code ∧
          (nonNumeral line = true ↔ ∃ share ∈ outcome.confidences, isFinite share.2 = false) := by
  have htree : document.toTree = .ok request.tree := by
    rw [ofDocument] at hrequest
    split at hrequest
    · rename_i tree htree
      cases hrequest
      exact htree
    · cases hrequest
  obtain ⟨table, ruleSet, frame, unit, hderive, hsome, hunit, hunits⟩ := compile_ok hcompile
  obtain ⟨root, node, unit', hsome', hfollows, -, hroot, -, -, houtcomes⟩ :=
    Tree.derive_unit? (Document.toTree_grown htree) hderive frame options.package
  obtain rfl : unit' = unit := Option.some.inj (hsome'.symm.trans hsome)
  have hfinite := Tree.conditions_finite hderive hfollows hroot
  have hshares := Tree.outcomes_shares hderive
  rw [← houtcomes] at hshares
  refine ⟨unit', hunit, hunits, hfinite, ?_, ?_, ?_⟩
  · intro outcome houtcome
    obtain ⟨hscore, node, hnode, hconfidences⟩ := hshares outcome houtcome
    exact ⟨hscore, node, hnode, hconfidences, fun d _ => node.isFinite_share_iff d⟩
  · intro line hline hnaming hword
    rcases mem_lines_cases hline with h | h | ⟨code, hcode, hin⟩
    · exact absurd h hnaming
    · rw [h] at hword
      cases hword
    · rcases scoringCode_cases hfinite hcode with hfree | ⟨outcome, houtcome, rfl⟩
      · rw [hfree 1 line hin] at hword
        cases hword
      · exact ⟨outcome, houtcome, hin⟩
  · intro outcome houtcome line hline
    obtain ⟨hscore, -⟩ := hshares outcome houtcome
    exact ⟨outcome_mem_lines houtcome hline, nonNumeral_outcome_iff hscore hline⟩

theorem compile_numbers_quarters :
    ∃ request model unit,
      Request.ofDocument Lone.quarters.document [.simple "x" .lessThan (some "1.5")] =
        .ok request ∧
      request.compile .standard = .ok model ∧ request.unit .standard = .ok unit ∧
      unit.guards = [.compare "x" .lt .double (.number 1.5)] ∧
      unit.outcomes = [⟨0, "0", .number 0.5, [("a", 0.75), ("b", 0.25)]⟩] ∧
      (∀ c ∈ unit.conditions, c.Finite) ∧
      ∀ line ∈ linesAll 0 unit.code, line ∉ unit.namingLines → nonNumeral line = false := by
  obtain ⟨unit, model, hunit, hcompile, houtcomes, hguards⟩ := Lone.exists_unit_quarters
  have hrequest := Lone.quarters.ofDocument_eq [.simple "x" .lessThan (some "1.5")]
  rw [Lone.outcome_quarters] at houtcomes
  refine ⟨_, model, unit, hrequest, hcompile, hunit, hguards, houtcomes, ?_⟩
  obtain ⟨unit', hunit', -, hfinite, -, hlines, hwords⟩ := compile_numbers hrequest hcompile
  obtain rfl : unit' = unit := Except.ok.inj (hunit'.symm.trans hunit)
  refine ⟨hfinite, fun line hline hnaming => ?_⟩
  refine Bool.eq_false_iff.mpr fun hword => ?_
  obtain ⟨outcome, houtcome, hin⟩ := hlines line hline hnaming hword
  obtain ⟨share, hshare, hshare'⟩ := (hwords outcome houtcome line hin).2.mp hword
  rw [houtcomes, List.mem_singleton] at houtcome
  rw [houtcome] at hshare
  have hall : ∀ share ∈ [("a", 0.75), ("b", 0.25)], isFinite share.2 = true := by
    decide +kernel
  rw [hall share hshare] at hshare'
  cases hshare'

/-- The share of the only label is an infinity, and the line of its outcome says so. -/
theorem compile_numbers_overflow :
    ∃ request model unit, Request.ofDocument Lone.overflow.document [] = .ok request ∧
      request.compile .standard = .ok model ∧ request.unit .standard = .ok unit ∧
      unit.outcomes = [⟨0, "0", .text "a", [("a", 1e10 / 1e-300)]⟩] ∧
      isFinite (1e10 / 1e-300) = false ∧
      model.sources.units =
        [(unit.qualifiedName, String.join ((linesAll 0 unit.code).map (· ++ "\n")))] ∧
      "    private static final Outcome OUTCOME_0 = new Outcome(\"0\", \"a\", " ++
        "new String[] \x7b\"a\"\x7d, new double[] \x7binf\x7d);" ∈ linesAll 0 unit.code := by
  obtain ⟨unit, model, hunit, hcompile, houtcomes⟩ := Lone.exists_unit_overflow
  have houtcome : Lone.overflow.outcome = ⟨0, "0", .text "a", [("a", 1e10 / 1e-300)]⟩ := by
    decide +kernel
  obtain ⟨-, -, -, unit', -, -, hunit', hunits⟩ := compile_ok hcompile
  obtain rfl : unit' = unit := Except.ok.inj (hunit'.symm.trans hunit)
  refine ⟨_, model, unit', Lone.overflow.ofDocument_eq [], hcompile, hunit, ?_, by decide +kernel,
    hunits, ?_⟩
  · rw [houtcomes, houtcome]
  · have hmem : Lone.overflow.outcome ∈ unit'.outcomes := by
      rw [houtcomes]
      exact List.mem_singleton_self _
    exact outcome_mem_lines hmem (by decide +kernel)

end Request

end ScoringTree
