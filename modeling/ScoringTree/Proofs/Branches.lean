import ScoringTree.Proofs.Arena
import ScoringTree.Proofs.Meaning
import ScoringTree.Proofs.Walks

/-!
# ScoringTree.Proofs.Branches

What the walk that derives rules finds.

* `Tree.IsBranch`      — what the branch of a node has to say.
* `Tree.walk_ok`, `Tree.walkAll_cons`, `Tree.derive_ok`
                       — what a walk that succeeds has done, step by step.
* `Tree.derive_branch?`
                       — the branch at a position is that of the node there.
* `Tree.Compiled`      — a tree with its rule set and its types.
* `Tree.enter_typed`   — a node of a compiled model can be tried on every record.
* `Parting`            — a model of two leaves worked out.
-/

namespace ScoringTree
namespace Tree

/-- What the branch of a node has to say. -/
structure IsBranch (tree : Tree) (table : FieldTable) (index : Nat) (node : Node)
    (branch : Branch) : Prop where
  index_eq : branch.node = index
  nodeId_eq : branch.nodeId = node.id
  condition_eq : node.predicate.map (·.typed table) = branch.condition.map Except.ok
  outcome_eq : branch.outcome = tree.outcome? index node
  children_eq : branch.children = node.children
  default_eq : node.defaultChild.map (tree.childNamed? node.children) =
    branch.defaultChild.map some

theorem typedAt_ok {p : Predicate} {table : FieldTable} {model path : String}
    {condition : Condition} (h : p.typedAt table model path = .ok condition) :
    p.typed table = .ok condition := by
  simp only [Predicate.typedAt] at h
  split at h
  · rename_i htyped
    cases h
    exact htyped
  · cases h
  · cases h

/-- The condition of a node that `path` leads to. -/
def conditionAt (tree : Tree) (table : FieldTable) (path : String) (node : Node) :
    Except DerivationError (Option Condition) :=
  match node.predicate with
  | none => .ok none
  | some p => (p.typedAt table tree.modelName path).map some

/-- The position of the default child of a node that `path` leads to. -/
def defaultAt (tree : Tree) (path : String) (node : Node) : Except DerivationError (Option Nat) :=
  match node.defaultChild with
  | none => .ok none
  | some id =>
    match tree.childNamed? node.children id with
    | some child => .ok (some child)
    | none => .error (.malformed tree.modelName (.strayDefault id path))

/-- A branch is made of the condition first and the default child second. -/
theorem branchAt_eq (tree : Tree) (table : FieldTable) (way : List Waypoint) (index : Nat)
    (node : Node) :
    tree.branchAt table way index node =
      match tree.conditionAt table (pathText way node.id) node with
      | .error e => .error e
      | .ok condition =>
        match tree.defaultAt (pathText way node.id) node with
        | .error e => .error e
        | .ok defaultChild =>
          .ok ⟨index, node.id, condition, tree.outcome? index node, node.children,
            defaultChild⟩ := by
  simp only [branchAt, conditionAt, defaultAt, bind, Except.bind]
  cases node.predicate with
  | none =>
    cases node.defaultChild with
    | none => rfl
    | some id => cases hc : tree.childNamed? node.children id <;> simp [hc]
  | some p =>
    dsimp only
    cases p.typedAt table tree.modelName (pathText way node.id) with
    | error e => rfl
    | ok condition =>
      cases node.defaultChild with
      | none => rfl
      | some id => cases hc : tree.childNamed? node.children id <;> simp [Except.map, hc]

theorem conditionAt_ok {tree : Tree} {table : FieldTable} {path : String} {node : Node}
    {condition : Option Condition} (h : tree.conditionAt table path node = .ok condition) :
    node.predicate.map (·.typed table) = condition.map Except.ok := by
  simp only [conditionAt] at h
  split at h
  · rename_i hnone
    cases h
    simp [hnone]
  · rename_i p hsome
    cases htyped : p.typedAt table tree.modelName path with
    | error e => rw [htyped] at h; cases h
    | ok c =>
      rw [htyped] at h
      cases h
      simp [hsome, typedAt_ok htyped]

theorem defaultAt_ok {tree : Tree} {path : String} {node : Node} {child : Option Nat}
    (h : tree.defaultAt path node = .ok child) :
    node.defaultChild.map (tree.childNamed? node.children) = child.map some := by
  simp only [defaultAt] at h
  split at h
  · rename_i hnone
    cases h
    simp [hnone]
  · rename_i id hsome
    split at h
    · rename_i c hc
      cases h
      simp [hsome, hc]
    · cases h

theorem branchAt_ok {tree : Tree} {table : FieldTable} {way : List Waypoint} {index : Nat}
    {node : Node} {branch : Branch} (h : tree.branchAt table way index node = .ok branch) :
    tree.IsBranch table index node branch := by
  rw [branchAt_eq] at h
  split at h
  · cases h
  · rename_i condition hcondition
    split at h
    · cases h
    · rename_i child hchild
      cases h
      exact ⟨rfl, rfl, conditionAt_ok hcondition, rfl, rfl, defaultAt_ok hchild⟩

/-! ## The walk -/

section Walk

variable {tree : Tree} {table : FieldTable} {guards : List Condition}

/-- A walk that succeeds has made the branch of its node, and then either found the rule of a leaf
or walked through the children. -/
theorem walk_ok {fuel : Nat} {way : List Waypoint} {index : Nat} {harvest : Harvest}
    (h : tree.walk table guards (fuel + 1) way index = .ok harvest) :
    ∃ node branch, tree.node? index = some node ∧ tree.IsBranch table index node branch ∧
      ((node.isLeaf = true ∧ ∃ outcome, branch.outcome = some outcome ∧
          harvest = ⟨[branch], [ruleOf (onward way index node branch) guards outcome]⟩) ∨
        (node.isLeaf = false ∧ ∃ below,
          tree.walkAll table guards fuel (onward way index node branch) node.children = .ok below ∧
          harvest = ⟨branch :: below.branches, below.rules⟩)) := by
  simp only [walk] at h
  split at h
  · cases h
  · rename_i node hnode
    split at h
    · cases h
    · rename_i branch hbranch
      refine ⟨node, branch, hnode, branchAt_ok hbranch, ?_⟩
      split at h
      · rename_i hleaf
        split at h
        · cases h
        · rename_i outcome houtcome
          cases h
          exact Or.inl ⟨hleaf, outcome, houtcome, rfl⟩
      · rename_i hinner
        split at h
        · cases h
        · rename_i below hbelow
          cases h
          exact Or.inr ⟨by simpa using hinner, below, hbelow, rfl⟩

theorem walkAll_nil {fuel : Nat} {way : List Waypoint} {harvest : Harvest}
    (h : tree.walkAll table guards fuel way [] = .ok harvest) : harvest = ⟨[], []⟩ := by
  simp only [walkAll] at h
  cases h
  rfl

theorem walkAll_cons {fuel : Nat} {way : List Waypoint} {index : Nat} {rest : List Nat}
    {harvest : Harvest} (h : tree.walkAll table guards fuel way (index :: rest) = .ok harvest) :
    ∃ first others, tree.walk table guards fuel way index = .ok first ∧
      tree.walkAll table guards fuel way rest = .ok others ∧
      harvest = ⟨first.branches ++ others.branches, first.rules ++ others.rules⟩ := by
  simp only [walkAll] at h
  split at h
  · cases h
  · rename_i first hfirst
    split at h
    · cases h
    · rename_i others hothers
      cases h
      exact ⟨first, others, hfirst, hothers, rfl⟩

/-- What a walk has to say about each branch it finds. -/
def Vouched (tree : Tree) (table : FieldTable) (branch : Branch) : Prop :=
  ∃ node, tree.node? branch.node = some node ∧ tree.IsBranch table branch.node node branch ∧
    (node.isLeaf = true → node.score.isSome = true)

theorem outcome?_isSome {index : Nat} {node : Node} {outcome : Outcome}
    (h : tree.outcome? index node = some outcome) : node.score.isSome = true := by
  obtain ⟨score, hscore, -⟩ := Option.map_eq_some_iff.mp h
  simp [hscore]

/-- Branches are found depth first, and each is that of its node. -/
theorem walk_branches : ∀ fuel (way : List Waypoint) (index : Nat) (harvest : Harvest),
    tree.walk table guards fuel way index = .ok harvest →
    harvest.branches.map (·.node) = tree.preorder fuel index ∧
      ∀ branch ∈ harvest.branches, tree.Vouched table branch := by
  intro fuel
  induction fuel with
  | zero => intro way index harvest h; simp [walk] at h
  | succ fuel ih =>
    -- the same for a list of positions, from that for each
    have hall : ∀ (way : List Waypoint) (indices : List Nat) (harvest : Harvest),
        tree.walkAll table guards fuel way indices = .ok harvest →
        harvest.branches.map (·.node) = indices.flatMap (tree.preorder fuel) ∧
          ∀ branch ∈ harvest.branches, tree.Vouched table branch := by
      intro way indices
      induction indices with
      | nil =>
        intro harvest h
        rw [walkAll_nil h]
        simp
      | cons index rest ihr =>
        intro harvest h
        obtain ⟨first, others, hfirst, hothers, rfl⟩ := walkAll_cons h
        obtain ⟨hnodes, hvouched⟩ := ih way index first hfirst
        obtain ⟨hnodes', hvouched'⟩ := ihr others hothers
        refine ⟨by simp [hnodes, hnodes'], ?_⟩
        intro branch hmem
        rcases List.mem_append.mp hmem with hmem | hmem
        · exact hvouched branch hmem
        · exact hvouched' branch hmem
    intro way index harvest h
    obtain ⟨node, branch, hnode, hbranch, hcase⟩ := walk_ok h
    have hindex := hbranch.index_eq
    have hchildren : tree.childrenAt index = node.children := childrenAt_of_node hnode
    rcases hcase with ⟨hleaf, outcome, houtcome, rfl⟩ | ⟨hinner, below, hbelow, rfl⟩
    · have hnil : node.children = [] := List.isEmpty_iff.mp hleaf
      refine ⟨by simp [preorder, hindex, hchildren, hnil], ?_⟩
      intro b hb
      rw [List.mem_singleton.mp hb]
      refine ⟨node, by rw [hindex]; exact hnode, by rw [hindex]; exact hbranch, ?_⟩
      intro _
      exact outcome?_isSome (hbranch.outcome_eq.symm.trans houtcome)
    · obtain ⟨hnodes, hvouched⟩ := hall _ _ below hbelow
      refine ⟨by simp [preorder, hindex, hchildren, hnodes], ?_⟩
      intro b hb
      rcases List.mem_cons.mp hb with rfl | hb
      · refine ⟨node, by rw [hindex]; exact hnode, by rw [hindex]; exact hbranch, ?_⟩
        intro hleaf
        rw [hleaf] at hinner
        cases hinner
      · exact hvouched b hb

/-- A walk finds a rule. -/
theorem walk_rules_ne : ∀ fuel (way : List Waypoint) (index : Nat) (harvest : Harvest),
    tree.walk table guards fuel way index = .ok harvest → harvest.rules ≠ [] := by
  intro fuel
  induction fuel with
  | zero => intro way index harvest h; simp [walk] at h
  | succ fuel ih =>
    intro way index harvest h
    obtain ⟨node, branch, -, -, hcase⟩ := walk_ok h
    rcases hcase with ⟨-, outcome, -, rfl⟩ | ⟨hinner, below, hbelow, rfl⟩
    · simp
    · cases hchildren : node.children with
      | nil => simp [Node.isLeaf, hchildren] at hinner
      | cons child rest =>
        rw [hchildren] at hbelow
        obtain ⟨first, others, hfirst, -, rfl⟩ := walkAll_cons hbelow
        have := ih _ child first hfirst
        simp [this]

end Walk

/-! ## The rule set -/

theorem repeatedId?_none {seen : List String} {nodes : List Node}
    (h : repeatedId? seen nodes = none) :
    (nodes.map (·.id)).Nodup ∧ ∀ node ∈ nodes, node.id ∉ seen := by
  induction nodes generalizing seen with
  | nil => simp
  | cons node rest ih =>
    simp only [repeatedId?] at h
    split at h
    · cases h
    · rename_i hnew
      obtain ⟨hnodup, hfresh⟩ := ih h
      refine ⟨?_, ?_⟩
      · rw [List.map_cons, List.nodup_cons]
        refine ⟨?_, hnodup⟩
        intro hmem
        obtain ⟨other, hother, heq⟩ := List.mem_map.mp hmem
        exact hfresh other hother (by simp [heq])
      · intro other hother
        rcases List.mem_cons.mp hother with rfl | hother
        · simpa using hnew
        · exact fun hseen => hfresh other hother (List.mem_cons_of_mem _ hseen)

section Derive

variable {tree : Tree} {table : FieldTable} {constraints : List Predicate} {ruleSet : RuleSet}

/-- What has been checked, and in which order, when a rule set is there. -/
theorem derive_ok (h : tree.derive table constraints = .ok ruleSet) :
    tree.nodes ≠ [] ∧ (tree.nodes.map (·.id)).Nodup ∧
      tree.typedGuards table constraints = .ok ruleSet.guards ∧
      ∃ harvest, tree.walk table ruleSet.guards tree.size [] 0 = .ok harvest ∧
        ruleSet.rules = harvest.rules ∧
        ruleSet.branches = (harvest.branches.mergeSort fun a b => a.node ≤ b.node) ∧
        ruleSet.onMissing = tree.onMissing ∧ ruleSet.onNoMatch = tree.onNoMatch := by
  simp only [derive] at h
  split at h
  · cases h
  · rename_i hnodes
    split at h
    · cases h
    · rename_i hids
      split at h
      · cases h
      · rename_i guards hguards
        split at h
        · cases h
        · rename_i walk hvisit
          obtain ⟨harvest, hwalk, rfl⟩ := visit_ok hvisit
          cases h
          exact ⟨by simpa using hnodes, (repeatedId?_none hids).1, hguards, harvest, hwalk, rfl,
            rfl, rfl, rfl⟩

theorem node?_id_inj (hids : (tree.nodes.map (·.id)).Nodup) {i j : Nat} {a b : Node}
    (ha : tree.node? i = some a) (hb : tree.node? j = some b) (h : a.id = b.id) : i = j := by
  have hi : (tree.nodes.map (·.id))[i]? = some a.id := by
    simp [show tree.nodes[i]? = some a from ha]
  have hj : (tree.nodes.map (·.id))[j]? = some a.id := by
    simp [show tree.nodes[j]? = some b from hb, h]
  obtain ⟨hilt, -⟩ := List.getElem?_eq_some_iff.mp hi
  exact (List.getElem?_inj hilt hids).mp (hi.trans hj.symm)

/-- Branches stand at the positions of their nodes. -/
theorem derive_positions (hgrown : tree.Grown Bare)
    (h : tree.derive table constraints = .ok ruleSet) :
    ruleSet.branches.map (·.node) = List.range tree.size := by
  obtain ⟨hne, -, -, harvest, hwalk, -, hbranches, -, -⟩ := derive_ok h
  obtain ⟨hnodes, -⟩ := walk_branches _ _ _ _ hwalk
  have hperm : (ruleSet.branches.map (·.node)).Perm (List.range tree.size) := by
    rw [hbranches]
    refine ((List.mergeSort_perm _ _).map _).trans ?_
    rw [hnodes]
    exact hgrown.preorder_perm _ (Nat.le_refl _) hne
  have hsorted : (ruleSet.branches.map (·.node)).Pairwise (· ≤ ·) := by
    rw [hbranches, List.pairwise_map]
    refine (List.pairwise_mergeSort ?_ ?_ _).imp ?_
    · intro a b c hab hbc
      simp only [decide_eq_true_eq] at *
      omega
    · intro a b
      simp only [Bool.or_eq_true, decide_eq_true_eq]
      omega
    · intro a b hab
      simpa using hab
  refine hperm.eq_of_pairwise ?_ hsorted (List.pairwise_le_range)
  intro a b _ _ hab hba
  omega

theorem derive_vouched (h : tree.derive table constraints = .ok ruleSet) :
    ∀ branch ∈ ruleSet.branches, tree.Vouched table branch := by
  obtain ⟨-, -, -, harvest, hwalk, -, hbranches, -, -⟩ := derive_ok h
  intro branch hmem
  rw [hbranches, List.mem_mergeSort] at hmem
  exact (walk_branches _ _ _ _ hwalk).2 branch hmem

/-- The branch at a position is that of the node there, and a leaf has a score. -/
theorem derive_branch? (hgrown : tree.Grown Bare)
    (h : tree.derive table constraints = .ok ruleSet) {index : Nat} {node : Node}
    (hnode : tree.node? index = some node) :
    ∃ branch, ruleSet.branch? index = some branch ∧ tree.IsBranch table index node branch ∧
      (node.isLeaf = true → node.score.isSome = true) := by
  have hpositions := derive_positions hgrown h
  have hlt : index < ruleSet.branches.length := by
    have hlen := congrArg List.length hpositions
    simp only [List.length_map, List.length_range] at hlen
    rw [hlen]
    exact node?_lt hnode
  have hbranch : ruleSet.branch? index = some ruleSet.branches[index] :=
    List.getElem?_eq_getElem hlt
  have hat : ruleSet.branches[index].node = index := by
    have := congrArg (fun l => l[index]?) hpositions
    simpa [List.getElem?_eq_getElem hlt, List.getElem?_range (node?_lt hnode)] using this
  obtain ⟨node', hnode', hisBranch, hscore⟩ := derive_vouched h _ (List.getElem_mem hlt)
  rw [hat, hnode] at hnode'
  cases hnode'
  exact ⟨_, hbranch, by rw [hat] at hisBranch; exact hisBranch, hscore⟩

end Derive

/-! ## Compiled models -/

/-- A tree whose rules could be derived, with the types that its predicates were checked for. -/
structure Compiled (tree : Tree) (table : FieldTable) (constraints : List Predicate)
    (ruleSet : RuleSet) (types : FieldTypes) : Prop where
  grown : tree.Grown Bare
  derived : tree.derive table constraints = .ok ruleSet
  typed : types.Matches table

theorem typedGuards_ok {tree : Tree} {table : FieldTable} {constraints : List Predicate}
    {guards : List Condition} (h : tree.typedGuards table constraints = .ok guards) :
    List.Forall₂ (fun p c => p.typed table = .ok c) constraints guards := by
  induction constraints generalizing guards with
  | nil => cases h; exact .nil
  | cons p ps ih =>
    simp only [typedGuards] at h
    split at h
    · cases h
    · rename_i c hc
      split at h
      · cases h
      · rename_i cs hcs
        cases h
        exact .cons (typedAt_ok hc) (ih hcs)

theorem childNamed?_mem {tree : Tree} {children : List Nat} {id : String} {child : Nat}
    (h : tree.childNamed? children id = some child) : child ∈ children :=
  List.mem_of_find?_eq_some h

/-- A node whose predicate has a condition can be tried on every record, and what its guard comes
to is the value of the condition. -/
theorem enter_typed {node : Node} {table : FieldTable} {condition : Option Condition}
    (hcondition : node.predicate.map (·.typed table) = condition.map Except.ok)
    {types : FieldTypes} (hmatch : types.Matches table) (record : Record) :
    ∃ t, node.enter types record = .ok t ∧
      (condition.getD (.constant true)).value compare record = t.boxed := by
  cases hp : node.predicate with
  | none =>
    cases condition with
    | none => exact ⟨.true, by simp [Node.enter, hp], rfl⟩
    | some c => simp [hp] at hcondition
  | some p =>
    cases condition with
    | none => simp [hp] at hcondition
    | some c =>
      have htyped : p.typed table = .ok c := by simpa [hp] using hcondition
      obtain ⟨t, ht, hvalue⟩ := Predicate.evaluate_typed hmatch record p c htyped
      exact ⟨t, by simp [Node.enter, hp, ht], hvalue⟩

theorem IsBranch.enter {tree : Tree} {table : FieldTable} {index : Nat} {node : Node}
    {branch : Branch} (hbranch : tree.IsBranch table index node branch) {types : FieldTypes}
    (hmatch : types.Matches table) (record : Record) :
    ∃ t, node.enter types record = .ok t ∧
      (branch.condition.getD (.constant true)).value compare record = t.boxed :=
  enter_typed hbranch.condition_eq hmatch record

/-- A prediction is made from the root on, which has been entered. -/
theorem evaluate_eq_some_iff {tree : Tree} {types : FieldTypes} {record : Record}
    {p : Prediction} :
    tree.evaluate types (.object record) = .ok (some p) ↔
      ∃ root, tree.node? 0 = some root ∧ root.enter types record = .ok .true ∧
        tree.evaluateFrom types record tree.size root = .ok (some p) := by
  simp only [evaluate, evaluateRecord]
  cases hnodes : tree.nodes with
  | nil => simp [node?, hnodes]
  | cons root rest =>
    have hroot : tree.node? 0 = some root := by simp [node?, hnodes]
    simp only [hroot, Option.some.injEq, exists_eq_left']
    cases henter : root.enter types record with
    | error e => simp
    | ok t => cases t <;> simp

namespace Compiled

variable {tree : Tree} {table : FieldTable} {constraints : List Predicate} {ruleSet : RuleSet}
  {types : FieldTypes} (h : tree.Compiled table constraints ruleSet types)

include h

/-- Children are there, and come after their parent. -/
theorem child {index child : Nat} {node : Node} (hnode : tree.node? index = some node)
    (hmem : child ∈ node.children) :
    index < child ∧ ∃ target, tree.node? child = some target := by
  have hmem' : child ∈ tree.childrenAt index := by rw [childrenAt_of_node hnode]; exact hmem
  have hproper := h.grown.proper
  exact ⟨hproper.behind index child hmem', exists_node (hproper.inside index child hmem')⟩

theorem branch? {index : Nat} {node : Node} (hnode : tree.node? index = some node) :
    ∃ branch, ruleSet.branch? index = some branch ∧ tree.IsBranch table index node branch ∧
      (node.isLeaf = true → node.score.isSome = true) :=
  derive_branch? h.grown h.derived hnode

end Compiled

end Tree

theorem Document.compiled {document : Document} {table : FieldTable} {tree : Tree}
    {constraints : List Predicate} {ruleSet : RuleSet}
    (hresolve : document.dictionaries.resolve = .ok table) (htree : document.toTree = .ok tree)
    (hderive : tree.derive table constraints = .ok ruleSet) :
    ∃ types, document.fieldTypes = .ok types ∧ tree.Compiled table constraints ruleSet types := by
  obtain ⟨types, htypes, hmatch⟩ := Document.resolve_fieldTypes hresolve
  exact ⟨types, htypes, Document.toTree_grown htree, hderive, hmatch⟩

/-! ## A model worked out

Models of two leaves under a root without a condition. In the one that is worked out, the first
leaf takes the texts before U+FF5E, a character behind the surrogates, and the second all others. -/

namespace Parting

def root : Node := ⟨⟨none, none, none, [], none⟩, "0", [1, 2]⟩

def documentOf (data : List DataField) (settings : Settings) (first second : Predicate) :
    Document :=
  { dataDictionary := data, transformations := [], settings,
    root := some ⟨⟨none, none, none, [], none⟩, some "0",
      [⟨⟨some first, some "a", none, [], none⟩, some "1", []⟩,
        ⟨⟨some second, some "b", none, [], none⟩, some "2", []⟩]⟩ }

def treeOf (settings : Settings) (first second : Predicate) : Tree :=
  { settings with
    nodes :=
      [root, ⟨⟨some first, some "a", none, [], none⟩, "1", []⟩,
        ⟨⟨some second, some "b", none, [], none⟩, "2", []⟩] }

def rootBranch : Branch := ⟨0, "0", none, none, [1, 2], none⟩

def leafBranch (index : Nat) (id score : String) (condition : Condition) : Branch :=
  ⟨index, id, some condition, some ⟨index, id, .text score, []⟩, [], none⟩

def leafRule (index : Nat) (id score : String) (condition : Condition) : Rule :=
  Tree.ruleOf [⟨0, "0", none⟩, ⟨index, id, some condition⟩] [] ⟨index, id, .text score, []⟩

def ruleSetOf (settings : Settings) (first second : Condition) : RuleSet :=
  { modelName := settings.modelName,
    rules := [leafRule 1 "1" "a" first, leafRule 2 "2" "b" second],
    branches := [rootBranch, leafBranch 1 "1" "a" first, leafBranch 2 "2" "b" second],
    guards := [], onMissing := settings.onMissing, onNoMatch := settings.onNoMatch }

section Derivation

variable {table : FieldTable} {settings : Settings} {first second : Predicate} {c d : Condition}
  (hfunction : settings.function = .classification)

include hfunction

theorem walk_leaf {index : Nat} {id score : String} {p : Predicate}
    (hnode : (treeOf settings first second).node? index =
      some ⟨⟨some p, some score, none, [], none⟩, id, []⟩)
    (hp : p.typed table = .ok c) :
    (treeOf settings first second).walk table [] 2 [⟨0, "0", none⟩] index =
      .ok ⟨[leafBranch index id score c], [leafRule index id score c]⟩ := by
  have hbranch : (treeOf settings first second).branchAt table [⟨0, "0", none⟩] index
      ⟨⟨some p, some score, none, [], none⟩, id, []⟩ = .ok (leafBranch index id score c) := by
    simp only [Tree.branchAt, Predicate.typedAt, hp, Tree.outcome?]
    rw [show (treeOf settings first second).function = .classification from hfunction]
    rfl
  rw [Tree.walk, hnode]
  simp only [hbranch]
  rfl

theorem derive_treeOf (hfirst : first.typed table = .ok c) (hsecond : second.typed table = .ok d) :
    (treeOf settings first second).derive table [] = .ok (ruleSetOf settings c d) := by
  have hids : Tree.repeatedId? [] (treeOf settings first second).nodes = none := by
    simp only [treeOf]
    rfl
  have hwalk : (treeOf settings first second).walk table [] 3 [] 0 =
      .ok ⟨(ruleSetOf settings c d).branches, (ruleSetOf settings c d).rules⟩ := by
    have hroot : (treeOf settings first second).branchAt table [] 0 root = .ok rootBranch := rfl
    have hbelow : (treeOf settings first second).walkAll table [] 2 [⟨0, "0", none⟩] [1, 2] =
        .ok ⟨[leafBranch 1 "1" "a" c, leafBranch 2 "2" "b" d],
          (ruleSetOf settings c d).rules⟩ := by
      have hleft : (treeOf settings first second).node? 1 =
          some ⟨⟨some first, some "a", none, [], none⟩, "1", []⟩ := rfl
      have hright : (treeOf settings first second).node? 2 =
          some ⟨⟨some second, some "b", none, [], none⟩, "2", []⟩ := rfl
      simp only [Tree.walkAll, walk_leaf hfunction hleft hfirst, walk_leaf hfunction hright hsecond]
      rfl
    have hway : Tree.onward [] 0 root rootBranch = [⟨0, "0", none⟩] := rfl
    rw [Tree.walk, show (treeOf settings first second).node? 0 = some root from rfl]
    simp only [hroot, hway, show root.children = [1, 2] from rfl, hbelow]
    rfl
  have hsorted : ((ruleSetOf settings c d).branches.mergeSort fun a b => a.node ≤ b.node) =
      (ruleSetOf settings c d).branches := by
    refine List.mergeSort_of_pairwise ?_
    simp [ruleSetOf, rootBranch, leafBranch]
  rw [Tree.derive, hids]
  simp only [Tree.typedGuards, show (treeOf settings first second).size = 3 from rfl,
    Tree.visit_start hwalk, hsorted]
  rfl

end Derivation

def settings : Settings := { Settings.named "parting" with onMissing := .nullPrediction }

def document : Document :=
  documentOf [⟨"t", "text", []⟩] settings (.simple "t" .lessThan (some "～")) .always

def table : FieldTable := ⟨[("t", ⟨.text, .string, .data, []⟩)]⟩

def types : FieldTypes := ⟨[("t", .text)]⟩

def tree : Tree := treeOf settings (.simple "t" .lessThan (some "～")) .always

def below : Condition := .compare "t" .lt .string (.text "～")

def ruleSet : RuleSet := ruleSetOf settings below (.constant true)

/-- A single data field. The type stays a variable, for to read a type is long work. -/
theorem resolve_single (name declared : String) {type : FieldType}
    (hread : FieldType.read declared = .ok type) :
    Dictionaries.resolve ⟨[⟨name, declared, []⟩], [], []⟩ =
        .ok ⟨[(name, ⟨type, type.sourceType, .data, []⟩)]⟩ ∧
      Dictionaries.fieldTypes ⟨[⟨name, declared, []⟩], [], []⟩ = .ok ⟨[(name, type)]⟩ := by
  refine ⟨?_, ?_⟩
  · simp [Dictionaries.resolve, Dictionaries.merge, bind, Except.bind, Declaration.ofData,
      FieldTable.overlay, FieldTable.add, FieldTable.empty, FieldTable.get?, FieldTable.put,
      FieldTable.putEntry, hread, FieldTable.undefined?, FieldTable.checkCycles, FieldTable.size,
      FieldTable.visitAll, FieldTable.visit, FieldTable.dependenciesAt]
  · rw [Dictionaries.fieldTypes, show Dictionaries.declarations _ = [(name, declared)] from rfl,
      FieldTypes.declare_cons, hread]
    rfl

theorem resolve_eq : document.dictionaries.resolve = .ok table :=
  (resolve_single "t" "text" FieldType.read_text).1

theorem fieldTypes_eq : document.fieldTypes = .ok types := by
  rw [Document.fieldTypes, Dictionaries.typesFor,
    show document.dictionaries = ⟨[⟨"t", "text", []⟩], [], []⟩ from rfl,
    (resolve_single "t" "text" FieldType.read_text).2]
  rfl

theorem toTree_eq : document.toTree = .ok tree := rfl

theorem derive_eq : tree.derive table [] = .ok ruleSet := derive_treeOf rfl rfl rfl

end Parting

end ScoringTree
