import ScoringTree.Proofs.Branches
import ScoringTree.Proofs.Meaning
import ScoringTree.Source.Unit

/-!
# ScoringTree.Proofs.UnitRun

Running a generated unit, and what it answers against the prediction for the same record.

* `ScoringUnit.runMethod`, `ScoringUnit.run`
                          — a method of a unit, and the unit, run on a record. The number bounds
                            the calls; how texts are ordered is a parameter.
* `ScoringUnit.Answers`   — the unit answers with an outcome, or with none.

A method and the interpreter take the same step at a node (`selectChild_choose`), so from every
node on they stop at the same place (`evaluateFrom_runMethod`).
-/

namespace ScoringTree

section Semantics

variable (order : String → String → Ordering) (record : Record)

/-- What the tests of a method lead to, one after the other. -/
def UnitStep.choose : List UnitStep → Reply → Reaction
  | [], fallback => .reply fallback
  | step :: rest, fallback =>
    let matched := step.condition.value order record
    if Helper.isTrue matched then .descend step.child
    else
      match matched, step.onUnknown with
      | none, some reaction => reaction
      | _, _ => UnitStep.choose rest fallback

def MethodBody.react : MethodBody → Reaction
  | .leaf reply => .reply reply
  | .choice steps fallback => UnitStep.choose order record steps fallback

namespace ScoringUnit

def method? (unit : ScoringUnit) (node : Nat) : Option UnitMethod :=
  unit.methods.find? (·.node == node)

/-- The answer of the method of a node; none if there is no such method, or if it takes more
calls than the number allows. -/
def runMethod (unit : ScoringUnit) : Nat → Nat → Option Reply
  | 0, _ => none
  | fuel + 1, node =>
    match unit.method? node with
    | none => none
    | some method =>
      match method.body.react order record with
      | .reply reply => some reply
      | .descend next => runMethod unit fuel next

/-- The unit gives up unless every guard and the condition of the root are true. -/
def run (unit : ScoringUnit) (fuel : Nat) : Option Reply :=
  if (unit.guards ++ unit.rootCondition.toList).all fun c => Helper.isTrue (c.value order record)
  then unit.runMethod order record fuel unit.root
  else some none

def Answers (unit : ScoringUnit) (reply : Reply) : Prop :=
  ∃ fuel, unit.run order record fuel = some reply

end ScoringUnit

end Semantics

namespace ScoringUnit

variable {order : String → String → Ordering} {record : Record} {unit : ScoringUnit}

theorem runMethod_mono : ∀ {fuel node : Nat} {reply : Reply},
    unit.runMethod order record fuel node = some reply →
    ∀ more, unit.runMethod order record (fuel + more) node = some reply := by
  intro fuel
  induction fuel with
  | zero => intro node reply h; cases h
  | succ fuel ih =>
    intro node reply h more
    rw [Nat.succ_add]
    simp only [runMethod] at h ⊢
    split at h
    · cases h
    · rename_i method hmethod
      split at h
      · exact h
      · exact ih h more

theorem run_mono {fuel : Nat} {reply : Reply} (h : unit.run order record fuel = some reply)
    (more : Nat) : unit.run order record (fuel + more) = some reply := by
  simp only [run] at h ⊢
  split at h
  · rename_i hpass
    rw [if_pos hpass]
    exact runMethod_mono h more
  · rename_i hfail
    rw [if_neg hfail]
    exact h

/-- A unit answers in one way only. -/
theorem Answers.deterministic {reply reply' : Reply} (h : unit.Answers order record reply)
    (h' : unit.Answers order record reply') : reply = reply' := by
  obtain ⟨fuel, hrun⟩ := h
  obtain ⟨fuel', hrun'⟩ := h'
  have h1 := run_mono hrun fuel'
  have h2 := run_mono hrun' fuel
  rw [Nat.add_comm, h1] at h2
  exact Option.some.inj h2

theorem answers_iff {fuel : Nat} {reply : Reply} (h : unit.run order record fuel = some reply)
    (reply' : Reply) : unit.Answers order record reply' ↔ reply' = reply := by
  constructor
  · intro h'
    exact Answers.deterministic h' ⟨fuel, h⟩
  · rintro rfl
    exact ⟨fuel, h⟩

end ScoringUnit

theorem RuleSet.method_node (ruleSet : RuleSet) (branch : Branch) :
    (ruleSet.method branch).node = branch.node := by
  simp only [method]
  split <;> rfl

/-! ## One step -/

/-- A step of the interpreter as the method of that node takes it. -/
def Step.reaction (branch : Branch) (onNoMatch : NoTrueChildStrategy) : Step → Reaction
  | .descend child => .descend child
  | .nullPrediction => .reply none
  | .lastPrediction => .reply branch.reply
  | .noMatch => .reply (branch.fallback onNoMatch)

namespace Tree

theorem IsBranch.onUnknown {tree : Tree} {table : FieldTable} {index : Nat} {node : Node}
    {branch : Branch} (hbranch : tree.IsBranch table index node branch)
    (onNoMatch : NoTrueChildStrategy) :
    ∃ step, tree.onUnknown node = .ok step ∧
      branch.onUnknown tree.onMissing = step.map (Step.reaction branch onNoMatch) ∧
      ∀ child, step = some (.descend child) → child ∈ node.children := by
  have hdefault := hbranch.default_eq
  -- the strategies that look for a default child do the same
  have hfollow : (tree.onMissing = .none ∨ tree.onMissing = .defaultChild) →
      ∃ step, tree.onUnknown node = .ok step ∧
        branch.onUnknown tree.onMissing = step.map (Step.reaction branch onNoMatch) ∧
        ∀ child, step = some (.descend child) → child ∈ node.children := by
    intro hstrategy
    cases hd : node.defaultChild with
    | none =>
      have hb : branch.defaultChild = none := by simpa [hd] using hdefault.symm
      refine ⟨none, ?_, ?_, by simp⟩
      · rcases hstrategy with hs | hs <;> simp [Tree.onUnknown, hs, hd]
      · rcases hstrategy with hs | hs <;> simp [Branch.onUnknown, hs, hb]
    | some id =>
      obtain ⟨child, hb, hchild⟩ : ∃ child, branch.defaultChild = some child ∧
          tree.childNamed? node.children id = some child := by
        cases hb : branch.defaultChild with
        | none => simp [hd, hb] at hdefault
        | some child => exact ⟨child, rfl, by simpa [hd, hb] using hdefault⟩
      refine ⟨some (.descend child), ?_, ?_, ?_⟩
      · rcases hstrategy with hs | hs <;> simp [Tree.onUnknown, hs, hd, hchild]
      · rcases hstrategy with hs | hs <;> simp [Branch.onUnknown, hs, hb, Step.reaction]
      · intro c hc
        cases hc
        exact childNamed?_mem hchild
  cases hs : tree.onMissing with
  | none => rw [← hs]; exact hfollow (Or.inl hs)
  | defaultChild => rw [← hs]; exact hfollow (Or.inr hs)
  | nullPrediction =>
    exact ⟨some .nullPrediction, by simp [Tree.onUnknown, hs], rfl, by simp⟩
  | lastPrediction =>
    exact ⟨some .lastPrediction, by simp [Tree.onUnknown, hs], rfl, by simp⟩

namespace Compiled

variable {tree : Tree} {table : FieldTable} {constraints : List Predicate} {ruleSet : RuleSet}
  {types : FieldTypes} (h : tree.Compiled table constraints ruleSet types)

include h

/-- At every node the interpreter takes a step, and the tests of the method lead to the same. -/
theorem selectChild_choose (record : Record) {index : Nat} {node : Node} {branch : Branch}
    (hnode : tree.node? index = some node) (hbranch : tree.IsBranch table index node branch)
    (children : List Nat) (hsub : ∀ c ∈ children, c ∈ node.children) :
    ∃ step, tree.selectChild types record node children = .ok step ∧
      UnitStep.choose compare record
          ((children.filterMap ruleSet.branch?).map (·.step (branch.onUnknown tree.onMissing)))
          (branch.fallback tree.onNoMatch) = step.reaction branch tree.onNoMatch ∧
      ∀ child, step = .descend child → child ∈ node.children := by
  induction children with
  | nil => exact ⟨.noMatch, rfl, rfl, by simp⟩
  | cons child rest ih =>
    have hmem := hsub child List.mem_cons_self
    obtain ⟨-, target, htarget⟩ := h.child hnode hmem
    obtain ⟨tested, htested, htestedBranch, -⟩ := h.branch? htarget
    obtain ⟨t, henter, hvalue⟩ := htestedBranch.enter h.typed record
    obtain ⟨later, hlater, hchoose, hlaterMem⟩ :=
      ih fun c hc => hsub c (List.mem_cons_of_mem _ hc)
    have hmatched : (tested.step (branch.onUnknown tree.onMissing)).condition.value compare record =
        t.boxed := hvalue
    simp only [selectChild, htarget, henter, List.filterMap_cons_some htested, List.map_cons,
      UnitStep.choose, hmatched]
    cases t with
    | true =>
      refine ⟨.descend child, rfl, ?_, ?_⟩
      · simp [Helper.isTrue, Truth.boxed, Step.reaction, Branch.step, htestedBranch.index_eq]
      · intro c hc
        cases hc
        exact hmem
    | false => exact ⟨later, hlater, by simpa [Helper.isTrue, Truth.boxed] using hchoose, hlaterMem⟩
    | unknown =>
      obtain ⟨step, hstep, hreaction, hstepMem⟩ := hbranch.onUnknown tree.onNoMatch
      cases step with
      | none =>
        refine ⟨later, by simpa [hstep] using hlater, ?_, hlaterMem⟩
        simpa [Helper.isTrue, Truth.boxed, Branch.step, hreaction] using hchoose
      | some step =>
        refine ⟨step, by simp [hstep], ?_, fun c hc => hstepMem c (by rw [hc])⟩
        simp [Helper.isTrue, Truth.boxed, Branch.step, hreaction]

end Compiled

/-! ## Whole runs -/

/-- The prediction of the node that a reply names. -/
def predictionAt (tree : Tree) (reply : Reply) : Option Prediction :=
  reply.bind fun k => (tree.node? k).map Node.prediction

theorem IsBranch.reply_eq {tree : Tree} {table : FieldTable} {index : Nat} {node : Node}
    {branch : Branch} (hbranch : tree.IsBranch table index node branch) :
    branch.reply = if node.score.isSome then some index else none := by
  rw [Branch.reply, hbranch.outcome_eq, outcome?]
  cases node.score <;> rfl

theorem IsBranch.predictionAt_reply {tree : Tree} {table : FieldTable} {index : Nat} {node : Node}
    {branch : Branch} (hbranch : tree.IsBranch table index node branch)
    (hnode : tree.node? index = some node) :
    tree.predictionAt branch.reply = node.lastPrediction? := by
  rw [hbranch.reply_eq, Node.lastPrediction?]
  split
  · simp [predictionAt, hnode]
  · rfl

namespace Compiled

variable {tree : Tree} {table : FieldTable} {constraints : List Predicate} {ruleSet : RuleSet}
  {types : FieldTypes} (h : tree.Compiled table constraints ruleSet types)

include h

theorem method?_eq {unit : ScoringUnit} (hunit : unit.methods = ruleSet.branches.map ruleSet.method)
    {index : Nat} {branch : Branch} (hbranch : ruleSet.branch? index = some branch) :
    unit.method? index = some (ruleSet.method branch) := by
  have hpositions := derive_positions h.grown h.derived
  obtain ⟨hlt, hat⟩ := List.getElem?_eq_some_iff.mp hbranch
  have hplace : ∀ i (hi : i < ruleSet.branches.length), ruleSet.branches[i].node = i := by
    intro i hi
    have hi' : i < (ruleSet.branches.map (·.node)).length := by simpa using hi
    have := List.getElem_of_eq hpositions hi'
    simpa using this
  rw [ScoringUnit.method?, hunit, List.find?_map, Option.map_eq_some_iff]
  refine ⟨branch, ?_, rfl⟩
  rw [List.find?_eq_some_iff_getElem]
  refine ⟨by simp [RuleSet.method_node, ← hat, hplace], index, hlt, hat, ?_⟩
  intro j hj
  simp [RuleSet.method_node, hplace j (Nat.lt_trans hj hlt)]
  omega

/-- From every node on, the interpreter and the methods stop at the same node. -/
theorem evaluateFrom_runMethod {unit : ScoringUnit}
    (hunit : unit.methods = ruleSet.branches.map ruleSet.method) (record : Record) :
    ∀ fuel (index : Nat) (node : Node), tree.node? index = some node → tree.size ≤ index + fuel →
      ∃ reply, unit.runMethod compare record fuel index = some reply ∧
        tree.evaluateFrom types record fuel node = .ok (tree.predictionAt reply) ∧
        ∀ k, reply = some k → k < tree.size := by
  obtain ⟨-, -, -, _, -, -, -, honMissing, honNoMatch⟩ := derive_ok h.derived
  intro fuel
  induction fuel with
  | zero =>
    intro index node hnode hsize
    have := node?_lt hnode
    omega
  | succ fuel ih =>
    intro index node hnode hsize
    obtain ⟨branch, hat, hbranch, hscore⟩ := h.branch? hnode
    have hreply : ∀ k, branch.reply = some k → k < tree.size := by
      intro k hk
      rw [hbranch.reply_eq] at hk
      split at hk
      · cases hk; exact node?_lt hnode
      · cases hk
    have hisLeaf : branch.isLeaf = node.isLeaf := by
      rw [Branch.isLeaf, Node.isLeaf, hbranch.children_eq]
    simp only [ScoringUnit.runMethod, h.method?_eq hunit hat, RuleSet.method, evaluateFrom, hisLeaf]
    cases hleaf : node.isLeaf with
    | true =>
      refine ⟨branch.reply, rfl, ?_, hreply⟩
      simp [hbranch.predictionAt_reply hnode, Node.lastPrediction?, hscore hleaf]
    | false =>
      obtain ⟨step, hselect, hchoose, hmem⟩ :=
        h.selectChild_choose record hnode hbranch node.children fun _ hc => hc
      simp only [Bool.false_eq_true, if_false, MethodBody.react, hbranch.children_eq, honMissing,
        honNoMatch, hselect, hchoose]
      cases step with
      | descend child =>
        obtain ⟨hlt, target, htarget⟩ := h.child hnode (hmem child rfl)
        obtain ⟨reply, hrun, heval, hinside⟩ := ih child target htarget (by omega)
        exact ⟨reply, hrun, by simp [htarget, heval], hinside⟩
      | nullPrediction => exact ⟨none, rfl, rfl, by simp⟩
      | lastPrediction =>
        exact ⟨branch.reply, rfl, by simp [hbranch.predictionAt_reply hnode], hreply⟩
      | noMatch =>
        cases hstrategy : tree.onNoMatch with
        | returnNullPrediction => exact ⟨none, rfl, rfl, by simp⟩
        | returnLastPrediction =>
          exact ⟨branch.reply, rfl, by simp [hbranch.predictionAt_reply hnode], hreply⟩

end Compiled

end Tree

/-! ## The unit of a rule set -/

/-- What a unit takes from a rule set. -/
structure ScoringUnit.Follows (unit : ScoringUnit) (ruleSet : RuleSet) (root : Branch) : Prop where
  guards_eq : unit.guards = ruleSet.guards
  rootCondition_eq : unit.rootCondition = root.condition
  root_eq : unit.root = root.node
  methods_eq : unit.methods = ruleSet.branches.map ruleSet.method

/-- There is a unit where there are a branch and a rule. -/
theorem RuleSet.unit?_isSome {ruleSet : RuleSet} {root : Branch} {others : List Branch}
    (hbranches : ruleSet.branches = root :: others) (hrules : ruleSet.rules ≠ [])
    (frame : Source.Skeleton) (package : String) :
    ∃ unit, ruleSet.unit? frame package = some unit ∧ unit.Follows ruleSet root ∧
      unit.package = package ∧ unit.frame = frame ∧
      unit.outcomes = ruleSet.branches.filterMap (·.outcome) := by
  have hsome : ruleSet.rules.isEmpty = false := by simpa using hrules
  simp only [unit?, hbranches, hsome, Bool.false_eq_true, if_false, Option.some.injEq,
    exists_eq_left']
  exact ⟨⟨rfl, rfl, rfl, by rw [hbranches]⟩, trivial, trivial, trivial⟩

namespace Tree

/-- The unit of a tree, whose root is the first branch. -/
theorem derive_unit? {tree : Tree} {table : FieldTable} {constraints : List Predicate}
    {ruleSet : RuleSet} (hgrown : tree.Grown Bare)
    (h : tree.derive table constraints = .ok ruleSet) (frame : Source.Skeleton)
    (package : String) :
    ∃ root node unit, ruleSet.unit? frame package = some unit ∧ unit.Follows ruleSet root ∧
      tree.node? 0 = some node ∧ tree.IsBranch table 0 node root ∧
      unit.package = package ∧ unit.frame = frame ∧
      unit.outcomes = ruleSet.branches.filterMap (·.outcome) := by
  obtain ⟨hne, -, -, harvest, hwalk, hrules, -⟩ := derive_ok h
  obtain ⟨node, hnode⟩ : ∃ node, tree.node? 0 = some node :=
    exists_node (List.length_pos_iff.mpr hne)
  obtain ⟨root, hroot, hbranch, -⟩ := derive_branch? hgrown h hnode
  have hsome : ruleSet.rules ≠ [] := by
    rw [hrules]
    exact walk_rules_ne _ _ _ _ hwalk
  cases hbranches : ruleSet.branches with
  | nil => simp [RuleSet.branch?, hbranches] at hroot
  | cons first others =>
    have hfirst : first = root := by simpa [RuleSet.branch?, hbranches] using hroot
    obtain ⟨unit, hunit, hfollows, hparts⟩ := RuleSet.unit?_isSome hbranches hsome frame package
    rw [hbranches] at hparts
    exact ⟨root, node, unit, hunit, hfirst ▸ hfollows, hnode, hbranch, hparts⟩

end Tree

namespace Tree.Compiled

variable {tree : Tree} {table : FieldTable} {constraints : List Predicate} {ruleSet : RuleSet}
  {types : FieldTypes} (h : tree.Compiled table constraints ruleSet types)

include h

theorem exists_unit (frame : Source.Skeleton) (package : String) :
    ∃ root node unit, ruleSet.unit? frame package = some unit ∧ unit.Follows ruleSet root ∧
      tree.node? 0 = some node ∧ tree.IsBranch table 0 node root := by
  obtain ⟨root, node, unit, hunit, hfollows, hnode, hbranch, -⟩ :=
    derive_unit? h.grown h.derived frame package
  exact ⟨root, node, unit, hunit, hfollows, hnode, hbranch⟩

/-- The guards of a unit are true where the constraints are, and no constraint fails. -/
theorem guards_true (record : Record) :
    (∀ p ∈ constraints, ∃ t, p.evaluate types record = .ok t) ∧
      ((ruleSet.guards.all fun c => Helper.isTrue (c.value compare record)) = true ↔
        ∀ p ∈ constraints, p.evaluate types record = .ok .true) := by
  obtain ⟨-, -, hguards, -⟩ := derive_ok h.derived
  have hpaired : List.Forall₂ (fun p c => ∃ t, p.evaluate types record = .ok t ∧
      c.value compare record = t.boxed) constraints ruleSet.guards :=
    (typedGuards_ok hguards).imp fun p c hc => Predicate.evaluate_typed h.typed record p c hc
  clear hguards h
  generalize ruleSet.guards = guards at hpaired
  induction hpaired with
  | nil => simp
  | cons hhead _ ih =>
    obtain ⟨t, ht, hvalue⟩ := hhead
    refine ⟨by simpa [ht] using ih.1, ?_⟩
    simp [ht, hvalue, Helper.isTrue_boxed, ih.2]

/-- The interpreter never fails. A unit whose guards are true answers with its prediction, and one
with a guard that is not true answers with none. -/
theorem evaluate_run {unit : ScoringUnit} {root : Branch} {node : Node}
    (hunit : unit.Follows ruleSet root) (hnode : tree.node? 0 = some node)
    (hbranch : tree.IsBranch table 0 node root) (record : Record) :
    ∃ result reply, tree.evaluate types (.object record) = .ok result ∧
      unit.run compare record tree.size = some reply ∧ (∀ k, reply = some k → k < tree.size) ∧
      ((∀ p ∈ constraints, p.evaluate types record = .ok .true) →
        result = tree.predictionAt reply) ∧
      (¬(∀ p ∈ constraints, p.evaluate types record = .ok .true) → reply = none) := by
  obtain ⟨t, henter, hvalue⟩ := hbranch.enter h.typed record
  obtain ⟨-, hguards⟩ := h.guards_true record
  obtain ⟨reply, hrun, heval, hinside⟩ :=
    h.evaluateFrom_runMethod hunit.methods_eq record tree.size 0 node hnode (by omega)
  have hcons : ∃ rest, tree.nodes = node :: rest := by
    cases hnodes : tree.nodes with
    | nil => simp [node?, hnodes] at hnode
    | cons first rest => exact ⟨rest, by simpa [node?, hnodes] using hnode⟩
  obtain ⟨rest, hnodes⟩ := hcons
  have hroot : (root.condition.toList.all fun c => Helper.isTrue (c.value compare record)) =
      Helper.isTrue t.boxed := by
    rw [← hvalue]
    cases root.condition <;> simp [Condition.value, Helper.isTrue]
  have hresult : tree.evaluate types (.object record) =
      if t = .true then .ok (tree.predictionAt reply) else .ok none := by
    simp only [evaluate, evaluateRecord, hnodes, henter]
    cases t <;> simp [heval]
  have hreply : unit.run compare record tree.size =
      if (∀ p ∈ constraints, p.evaluate types record = .ok .true) ∧ t = .true
      then some reply else some none := by
    simp only [ScoringUnit.run, hunit.guards_eq, hunit.rootCondition_eq, hunit.root_eq,
      hbranch.index_eq, List.all_append, hroot, Bool.and_eq_true, hguards, Helper.isTrue_boxed,
      hrun]
  rw [hresult, hreply]
  by_cases ht : t = .true
  · rw [if_pos ht]
    refine ⟨tree.predictionAt reply, ?_⟩
    by_cases hpass : ∀ p ∈ constraints, p.evaluate types record = .ok .true
    · rw [if_pos ⟨hpass, ht⟩]
      exact ⟨reply, rfl, rfl, hinside, fun _ => rfl, fun hfail => absurd hpass hfail⟩
    · rw [if_neg fun hboth => hpass hboth.1]
      exact ⟨none, rfl, rfl, by simp, fun hall => absurd hall hpass, fun _ => rfl⟩
  · rw [if_neg ht, if_neg fun hboth => ht hboth.2]
    exact ⟨none, none, rfl, rfl, by simp, fun _ => rfl, fun _ => rfl⟩

end Tree.Compiled

end ScoringTree
