import Mathlib.Data.List.Chain
import ScoringTree.Proofs.Branches

/-!
# ScoringTree.Proofs.Routes

The ways from the root of a tree down to its nodes, and the rules that stand at their ends.

* `Tree.Leads`        — a list of positions goes from the root to a position, child by child; there
                        is one such list for each position (`Proper.leads_unique`).
* `Tree.routes`       — all these lists, depth first.
* `Tree.testsOn`      — the predicates on a way, that of the root first.
* `Tree.Charts`       — the waypoints that a walk has collected stand for a way.
* `Tree.Spells`       — what the rule at the end of a way has to say.
* `Tree.walk_spells`  — a walk finds the rules of the ways that end in leaves.
* `Tree.derive_paths` — the same of the whole rule set, with its branches.
-/

namespace ScoringTree
namespace Tree

/-! ## Ways from the root -/

/-- A way from the root to a position, from each position to one of its children. -/
structure Leads (tree : Tree) (route : List Nat) (index : Nat) : Prop where
  start : route.head? = some 0
  down : route.IsChain fun i c => c ∈ tree.childrenAt i
  ends : route.getLast? = some index

variable {tree : Tree}

theorem leads_root (tree : Tree) : tree.Leads [0] 0 := ⟨rfl, .singleton _, rfl⟩

theorem Leads.child {route : List Nat} {i c : Nat} (h : tree.Leads route i)
    (hc : c ∈ tree.childrenAt i) : tree.Leads (route ++ [c]) c := by
  refine ⟨?_, ?_, List.getLast?_concat⟩
  · rw [List.head?_append, h.start, Option.some_or]
  · rw [List.isChain_append]
    refine ⟨h.down, .singleton _, ?_⟩
    intro last hlast next hnext
    have hfrom : last = i := Option.some.inj (hlast.symm.trans h.ends)
    have hto : next = c := by simpa using hnext.symm
    rw [hfrom, hto]
    exact hc

/-- A way is the root alone, or it comes from a way to the parent of its last position. -/
theorem Leads.cases {route : List Nat} {index i : Nat} (h : tree.Leads (route ++ [i]) index) :
    i = index ∧ ((route = [] ∧ i = 0) ∨ ∃ parent, tree.Leads route parent ∧
      i ∈ tree.childrenAt parent) := by
  have hends : i = index := by simpa using h.ends
  refine ⟨hends, ?_⟩
  cases hlast : route.getLast? with
  | none =>
    have hnil : route = [] := List.getLast?_eq_none_iff.mp hlast
    have hstart := h.start
    simp only [hnil, List.nil_append, List.head?_cons, Option.some.injEq] at hstart
    exact Or.inl ⟨hnil, hstart⟩
  | some parent =>
    obtain ⟨hdown, -, hlink⟩ := List.isChain_append.mp h.down
    have hstart := h.start
    have hne : route ≠ [] := by
      rintro rfl
      cases hlast
    rw [List.head?_append_of_ne_nil _ hne] at hstart
    exact Or.inr ⟨parent, ⟨hstart, hdown, hlast⟩, hlink parent hlast i rfl⟩

/-- No position is the child of two nodes. -/
theorem Proper.parent_unique (h : tree.Proper) {i j c : Nat} (hi : c ∈ tree.childrenAt i)
    (hj : c ∈ tree.childrenAt j) : i = j := by
  have hnodup : (tree.nodes.flatMap (·.children)).Nodup :=
    h.once.nodup_iff.mpr List.nodup_range'
  have hdisjoint := List.pairwise_iff_getElem.mp (List.nodup_flatMap.mp hnodup).2
  -- the node that a child comes from
  have hnode : ∀ k, c ∈ tree.childrenAt k → ∃ hk : k < tree.nodes.length,
      c ∈ tree.nodes[k].children := by
    intro k hk
    simp only [childrenAt] at hk
    split at hk
    · rename_i node hnode
      obtain ⟨hlt, hat⟩ := List.getElem?_eq_some_iff.mp hnode
      exact ⟨hlt, hat ▸ hk⟩
    · cases hk
  obtain ⟨hilt, hic⟩ := hnode i hi
  obtain ⟨hjlt, hjc⟩ := hnode j hj
  rcases Nat.lt_trichotomy i j with hlt | heq | hgt
  · exact absurd hjc (hdisjoint i j hilt hjlt hlt hic)
  · exact heq
  · exact absurd hic (hdisjoint j i hjlt hilt hgt hjc)

/-- There is one way to each position. -/
theorem Proper.leads_unique (h : tree.Proper) {route route' : List Nat} {index : Nat}
    (hroute : tree.Leads route index) (hroute' : tree.Leads route' index) : route = route' := by
  induction route using List.reverseRecOn generalizing route' index with
  | nil => cases hroute.start
  | append_singleton route i ih =>
    obtain ⟨route', rfl⟩ := List.getLast?_eq_some_iff.mp hroute'.ends
    obtain ⟨rfl, hcase⟩ := hroute.cases
    obtain ⟨-, hcase'⟩ := hroute'.cases
    rcases hcase with ⟨rfl, hzero⟩ | ⟨parent, hparent, hmem⟩
    · rcases hcase' with ⟨rfl, -⟩ | ⟨parent, -, hmem⟩
      · rfl
      · have := h.behind parent i hmem
        omega
    · rcases hcase' with ⟨-, hzero⟩ | ⟨parent', hparent', hmem'⟩
      · have := h.behind parent i hmem
        omega
      · have hsame := h.parent_unique hmem hmem'
        subst hsame
        rw [ih hparent hparent']

/-! ## All ways, depth first -/

/-- The ways to a position and to all below it, depth first; the ways go on from `before`. The first
number bounds the depth. -/
def routesFrom (tree : Tree) : Nat → List Nat → Nat → List (List Nat)
  | 0, _, _ => []
  | fuel + 1, before, index =>
    (before ++ [index]) ::
      (tree.childrenAt index).flatMap (routesFrom tree fuel (before ++ [index]))

/-- The ways from the root to all positions, depth first. -/
def routes (tree : Tree) : List (List Nat) := tree.routesFrom tree.size [] 0

theorem routesFrom_ends (tree : Tree) : ∀ fuel (before : List Nat) (index : Nat),
    (tree.routesFrom fuel before index).map List.getLast? =
      (tree.preorder fuel index).map some := by
  intro fuel
  induction fuel with
  | zero => intro before index; rfl
  | succ fuel ih =>
    intro before index
    simp only [routesFrom, preorder, List.map_cons, List.getLast?_concat, List.map_flatMap, ih]

theorem routesFrom_leads {fuel : Nat} {before : List Nat} {index : Nat}
    (h : tree.Leads (before ++ [index]) index) :
    ∀ route ∈ tree.routesFrom fuel before index, ∃ last, tree.Leads route last := by
  induction fuel generalizing before index with
  | zero =>
    intro route hroute
    cases hroute
  | succ fuel ih =>
    intro route hroute
    simp only [routesFrom, List.mem_cons, List.mem_flatMap] at hroute
    rcases hroute with rfl | ⟨c, hc, hroute⟩
    · exact ⟨index, h⟩
    · exact ih (h.child hc) route hroute

theorem routes_leads (tree : Tree) : ∀ route ∈ tree.routes, ∃ index, tree.Leads route index :=
  routesFrom_leads (leads_root tree)

/-! ## What stands on a way -/

/-- The names of the nodes on a way. -/
def idsOn (tree : Tree) (route : List Nat) : List String :=
  route.filterMap fun i => (tree.node? i).map (·.id)

/-- A predicate with the node that has it. -/
structure Test where
  node : Nat
  nodeId : String
  predicate : Predicate

/-- The predicates of the nodes on a way, in the order of the nodes. -/
def testsOn (tree : Tree) (route : List Nat) : List Test :=
  route.filterMap fun i =>
    (tree.node? i).bind fun node => node.predicate.map fun p => ⟨i, node.id, p⟩

/-- The premise is the test with its predicate typed. -/
structure Test.Typed (table : FieldTable) (test : Test) (premise : Premise) : Prop where
  node_eq : premise.node = test.node
  nodeId_eq : premise.nodeId = test.nodeId
  typed : test.predicate.typed table = .ok premise.condition

/-- The waypoint stands for the node at a position. -/
structure Marks (tree : Tree) (table : FieldTable) (index : Nat) (w : Waypoint) : Prop where
  node_eq : w.node = index
  at_node : ∃ node, tree.node? index = some node ∧ w.nodeId = node.id ∧
    node.predicate.map (·.typed table) = w.condition.map Except.ok

/-- The waypoints stand for the nodes on a way. -/
def Charts (tree : Tree) (table : FieldTable) (route : List Nat) (way : List Waypoint) : Prop :=
  List.Forall₂ (tree.Marks table) route way

variable {table : FieldTable}

theorem Charts.onward {route : List Nat} {way : List Waypoint} (h : tree.Charts table route way)
    {index : Nat} {node : Node} {branch : Branch} (hnode : tree.node? index = some node)
    (hbranch : tree.IsBranch table index node branch) :
    tree.Charts table (route ++ [index]) (onward way index node branch) :=
  List.rel_append h (.cons ⟨rfl, node, hnode, rfl, hbranch.condition_eq⟩ .nil)

theorem Charts.nodes {route : List Nat} {way : List Waypoint} (h : tree.Charts table route way) :
    way.map (·.node) = route := by
  induction h with
  | nil => rfl
  | cons hmark _ ih => rw [List.map_cons, ih, hmark.node_eq]

theorem Charts.ids {route : List Nat} {way : List Waypoint} (h : tree.Charts table route way) :
    way.map (·.nodeId) = tree.idsOn route := by
  induction h with
  | nil => rfl
  | cons hmark _ ih =>
    obtain ⟨node, hnode, hid, -⟩ := hmark.at_node
    rw [List.map_cons, ih, idsOn, idsOn, List.filterMap_cons_some (b := node.id) (by simp [hnode]),
      hid]

theorem Charts.premises {route : List Nat} {way : List Waypoint} (h : tree.Charts table route way)
    (guards : List Condition) (outcome : Outcome) :
    List.Forall₂ (Test.Typed table) (tree.testsOn route)
      (ruleOf way guards outcome).premises := by
  induction h with
  | nil => exact .nil
  | @cons i w route way hmark _ ih =>
    obtain ⟨node, hnode, hid, hcondition⟩ := hmark.at_node
    simp only [ruleOf, testsOn] at ih ⊢
    cases hp : node.predicate with
    | none =>
      have hw : w.condition = none := by simpa [hp] using hcondition.symm
      rw [List.filterMap_cons_none (by simp [hnode, hp]), List.filterMap_cons_none (by simp [hw])]
      exact ih
    | some p =>
      obtain ⟨c, hc, htyped⟩ : ∃ c, w.condition = some c ∧ p.typed table = .ok c := by
        cases hc : w.condition with
        | none => simp [hp, hc] at hcondition
        | some c => exact ⟨c, rfl, by simpa [hp, hc] using hcondition⟩
      rw [List.filterMap_cons_some (b := ⟨i, node.id, p⟩) (by simp [hnode, hp]),
        List.filterMap_cons_some (b := ⟨w.node, w.nodeId, c⟩) (by simp [hc])]
      exact .cons ⟨hmark.node_eq, hid, htyped⟩ ih

/-! ## The rules at the ends -/

def isLeafAt (tree : Tree) (index : Nat) : Bool := (tree.node? index).any Node.isLeaf

theorem isLeafAt_iff {index : Nat} :
    tree.isLeafAt index = true ↔ ∃ node, tree.node? index = some node ∧ node.isLeaf = true := by
  rw [isLeafAt, Option.any_eq_true]

/-- The way ends in a leaf. -/
def endsInLeaf (tree : Tree) (route : List Nat) : Bool := route.getLast?.any tree.isLeafAt

/-- The leaves in the order in which a walk meets them. -/
def leaves (tree : Tree) : List Nat := (tree.preorder tree.size 0).filter tree.isLeafAt

/-- What the rule at the end of a way has to say. -/
structure Spells (tree : Tree) (table : FieldTable) (guards : List Condition) (route : List Nat)
    (rule : Rule) : Prop where
  path_eq : rule.path = route
  name_eq : rule.name = Source.ruleName (tree.idsOn route)
  premises : List.Forall₂ (Test.Typed table) (tree.testsOn route) rule.premises
  guards_eq : rule.guards = guards
  ends : route.getLast? = some rule.outcome.node
  outcome_eq : (tree.node? rule.outcome.node).bind (tree.outcome? rule.outcome.node) =
    some rule.outcome

theorem outcome?_node {index : Nat} {node : Node} {outcome : Outcome}
    (h : tree.outcome? index node = some outcome) : outcome.node = index := by
  obtain ⟨score, -, rfl⟩ := Option.map_eq_some_iff.mp h
  rfl

theorem Charts.spells {route : List Nat} {way : List Waypoint} (h : tree.Charts table route way)
    {index : Nat} {node : Node} {outcome : Outcome} (hnode : tree.node? index = some node)
    (hends : route.getLast? = some index) (houtcome : tree.outcome? index node = some outcome)
    (guards : List Condition) : tree.Spells table guards route (ruleOf way guards outcome) where
  path_eq := h.nodes
  name_eq := congrArg Source.ruleName h.ids
  premises := h.premises guards outcome
  guards_eq := rfl
  ends := by rw [hends, ← outcome?_node houtcome]; rfl
  outcome_eq := by
    rw [show (ruleOf way guards outcome).outcome = outcome from rfl, outcome?_node houtcome, hnode]
    exact houtcome

/-- A walk finds the rules of the ways that end in leaves, in the order of the ways. -/
theorem walk_spells {guards : List Condition} : ∀ fuel {before : List Nat} {way : List Waypoint}
    {index : Nat} {harvest : Harvest}, tree.Charts table before way →
    tree.walk table guards fuel way index = .ok harvest →
    List.Forall₂ (tree.Spells table guards)
      ((tree.routesFrom fuel before index).filter tree.endsInLeaf) harvest.rules := by
  intro fuel
  induction fuel with
  | zero => intro before way index harvest _ h; simp [walk] at h
  | succ fuel ih =>
    have hall : ∀ (before : List Nat) (way : List Waypoint) (indices : List Nat)
        (harvest : Harvest), tree.Charts table before way →
        tree.walkAll table guards fuel way indices = .ok harvest →
        List.Forall₂ (tree.Spells table guards)
          ((indices.flatMap (tree.routesFrom fuel before)).filter tree.endsInLeaf)
          harvest.rules := by
      intro before way indices
      induction indices with
      | nil =>
        intro harvest _ h
        rw [walkAll_nil h]
        exact .nil
      | cons index rest ihr =>
        intro harvest hcharts h
        obtain ⟨first, others, hfirst, hothers, rfl⟩ := walkAll_cons h
        rw [List.flatMap_cons, List.filter_append]
        exact List.rel_append (ih hcharts hfirst) (ihr others hcharts hothers)
    intro before way index harvest hcharts h
    obtain ⟨node, branch, hnode, hbranch, hcase⟩ := walk_ok h
    have hcharts := hcharts.onward hnode hbranch
    have hleaf : tree.endsInLeaf (before ++ [index]) = node.isLeaf := by
      simp [endsInLeaf, isLeafAt, hnode]
    rw [routesFrom, childrenAt_of_node hnode]
    rcases hcase with ⟨hisLeaf, outcome, houtcome, rfl⟩ | ⟨hinner, below, hbelow, rfl⟩
    · have hnil : node.children = [] := List.isEmpty_iff.mp hisLeaf
      rw [hnil, List.flatMap_nil, List.filter_cons_of_pos (hleaf.trans hisLeaf), List.filter_nil]
      rw [hbranch.outcome_eq] at houtcome
      exact .cons (hcharts.spells hnode List.getLast?_concat houtcome guards) .nil
    · rw [List.filter_cons_of_neg (by simp [hleaf, hinner])]
      exact hall _ _ _ below hcharts hbelow

theorem spells_of_mem {guards : List Condition} {routes : List (List Nat)} {rules : List Rule}
    (h : List.Forall₂ (tree.Spells table guards) routes rules) :
    ∀ rule ∈ rules, ∃ route ∈ routes, tree.Spells table guards route rule := by
  induction h with
  | nil => simp
  | @cons route rule _ _ hspells _ ih =>
    intro other hother
    rcases List.mem_cons.mp hother with rfl | hother
    · exact ⟨route, List.mem_cons_self, hspells⟩
    · obtain ⟨route', hroute', hspells'⟩ := ih other hother
      exact ⟨route', List.mem_cons_of_mem _ hroute', hspells'⟩

theorem spells_ends {guards : List Condition} {routes : List (List Nat)} {rules : List Rule}
    (h : List.Forall₂ (tree.Spells table guards) routes rules) :
    routes.map List.getLast? = (rules.map (·.outcome.node)).map some := by
  induction h with
  | nil => rfl
  | cons hspells _ ih => simp only [List.map_cons, ih, hspells.ends]

theorem routes_ends_filter (tree : Tree) :
    (tree.routes.filter tree.endsInLeaf).map List.getLast? = tree.leaves.map some := by
  have hends := tree.routesFrom_ends tree.size [] 0
  have hroutes := congrArg (List.filter (·.any tree.isLeafAt)) hends
  rw [List.filter_map, List.filter_map] at hroutes
  exact hroutes

/-! ## Leaves and defaults -/

theorem Grown.nodup_leaves (h : tree.Grown Bare) (hne : tree.nodes ≠ []) : tree.leaves.Nodup := by
  have hperm := h.preorder_perm tree.size (Nat.le_refl _) hne
  exact (hperm.nodup_iff.mpr List.nodup_range).filter _

theorem Grown.mem_leaves (h : tree.Grown Bare) (hne : tree.nodes ≠ []) {index : Nat} :
    index ∈ tree.leaves ↔ ∃ node, tree.node? index = some node ∧ node.isLeaf = true := by
  have hperm := h.preorder_perm tree.size (Nat.le_refl _) hne
  rw [leaves, List.mem_filter, hperm.mem_iff, List.mem_range, isLeafAt_iff]
  exact ⟨fun hleaf => hleaf.2, fun hleaf => ⟨node?_lt hleaf.choose_spec.1, hleaf⟩⟩

theorem range_nodes (tree : Tree) :
    (List.range tree.size).map tree.node? = tree.nodes.map some := by
  refine List.ext_getElem (by simp [size]) ?_
  intro i hi _
  have hlt : i < tree.nodes.length := by simpa [size] using hi
  simp [node?, List.getElem?_eq_getElem hlt]

theorem Grown.length_leaves (h : tree.Grown Bare) (hne : tree.nodes ≠ []) :
    tree.leaves.length = tree.leafCount := by
  have hperm := h.preorder_perm tree.size (Nat.le_refl _) hne
  calc tree.leaves.length
      = (tree.preorder tree.size 0).countP tree.isLeafAt := List.countP_eq_length_filter.symm
    _ = (List.range tree.size).countP tree.isLeafAt := hperm.countP_eq _
    _ = ((List.range tree.size).map tree.node?).countP (·.any Node.isLeaf) := by
        rw [List.countP_map]
        rfl
    _ = tree.leafCount := by
        rw [range_nodes, List.countP_map]
        rfl

theorem childNamed?_id {children : List Nat} {id : String} {child : Nat}
    (h : tree.childNamed? children id = some child) :
    (tree.node? child).map (·.id) = some id := by
  rw [childNamed?] at h
  have hnamed := List.find?_some h
  obtain ⟨target, htarget, hid⟩ := (Option.any_eq_true _ _).mp hnamed
  simpa [htarget] using hid

/-- A default child is declared exactly where the branch has one, and it is the child of that
name. -/
theorem IsBranch.defaultChild {index : Nat} {node : Node} {branch : Branch}
    (h : tree.IsBranch table index node branch) :
    (branch.defaultChild = none ↔ node.defaultChild = none) ∧
      ∀ child, branch.defaultChild = some child → child ∈ node.children ∧
        (tree.node? child).map (·.id) = node.defaultChild := by
  have heq := h.default_eq
  cases hd : node.defaultChild with
  | none =>
    rw [hd] at heq
    cases hb : branch.defaultChild with
    | none => simp
    | some child => simp [hb] at heq
  | some id =>
    rw [hd] at heq
    cases hb : branch.defaultChild with
    | none => simp [hb] at heq
    | some child =>
      simp only [hb, Option.map_some, Option.some.injEq] at heq
      refine ⟨by simp, ?_⟩
      rintro _ ⟨⟩
      exact ⟨childNamed?_mem heq, childNamed?_id heq⟩

/-! ## The whole rule set -/

section Derive

variable {constraints : List Predicate} {ruleSet : RuleSet}

theorem derive_spells (h : tree.derive table constraints = .ok ruleSet) :
    List.Forall₂ (tree.Spells table ruleSet.guards) (tree.routes.filter tree.endsInLeaf)
      ruleSet.rules := by
  obtain ⟨-, -, -, harvest, hwalk, hrules, -⟩ := derive_ok h
  rw [hrules]
  exact walk_spells tree.size .nil hwalk

/-- The rules of a tree stand for its leaves, one for each in the order of a walk. The path of a
rule is the one way to its leaf, its premises are the predicates on that way typed, and its guards
are the constraints typed. The branches stand at the positions of their nodes. The way that a visit
takes from node to node is, after each visit, what it was before. -/
theorem derive_paths (hgrown : tree.Grown Bare) (h : tree.derive table constraints = .ok ruleSet) :
    (ruleSet.rules.map (·.outcome.node) = tree.leaves ∧ tree.leaves.Nodup ∧
      (∀ index, index ∈ tree.leaves ↔
        ∃ node, tree.node? index = some node ∧ node.isLeaf = true) ∧
      ruleSet.rules.length = tree.leafCount ∧ ruleSet.rules ≠ []) ∧
    (∀ rule ∈ ruleSet.rules,
      (∀ route, tree.Leads route rule.outcome.node ↔ route = rule.path) ∧
      List.Forall₂ (Test.Typed table) (tree.testsOn rule.path) rule.premises ∧
      rule.guards = ruleSet.guards ∧ rule.name = Source.ruleName (tree.idsOn rule.path) ∧
      (tree.node? rule.outcome.node).bind (tree.outcome? rule.outcome.node) =
        some rule.outcome) ∧
    List.Forall₂ (fun p c => p.typed table = .ok c) constraints ruleSet.guards ∧
    ruleSet.branches.map (·.node) = List.range tree.size ∧
    (∀ index node, tree.node? index = some node → ∃ branch,
      ruleSet.branch? index = some branch ∧ branch.node = index ∧
      branch.children = node.children ∧
      (branch.defaultChild = none ↔ node.defaultChild = none) ∧
      ∀ child, branch.defaultChild = some child → child ∈ node.children ∧
        (tree.node? child).map (·.id) = node.defaultChild) ∧
    ∀ fuel walk index left, tree.visit table ruleSet.guards fuel walk index = .ok left →
      left.way = walk.way := by
  obtain ⟨hne, -, hguards, harvest, hwalk, hrules, -⟩ := derive_ok h
  have hspells := derive_spells h
  have hends : ruleSet.rules.map (·.outcome.node) = tree.leaves := by
    have hsome := (spells_ends hspells).symm.trans tree.routes_ends_filter
    exact List.map_injective_iff.mpr (fun _ _ => Option.some.inj) hsome
  refine ⟨⟨hends, hgrown.nodup_leaves hne, fun _ => hgrown.mem_leaves hne, ?_, ?_⟩, ?_,
    typedGuards_ok hguards, derive_positions hgrown h, ?_, fun _ _ _ _ => visit_way⟩
  · rw [← hgrown.length_leaves hne, ← hends, List.length_map]
  · rw [hrules]
    exact walk_rules_ne _ _ _ _ hwalk
  · intro rule hrule
    obtain ⟨route, hroute, hspelled⟩ := spells_of_mem hspells rule hrule
    obtain ⟨index, hleads⟩ := tree.routes_leads route (List.mem_filter.mp hroute).1
    have hindex : index = rule.outcome.node :=
      Option.some.inj (hleads.ends.symm.trans hspelled.ends)
    rw [hspelled.path_eq]
    refine ⟨fun other => ⟨?_, ?_⟩, hspelled.premises, hspelled.guards_eq, hspelled.name_eq,
      hspelled.outcome_eq⟩
    · intro hother
      exact hgrown.proper.leads_unique hother (hindex ▸ hleads)
    · rintro rfl
      exact hindex ▸ hleads
  · intro index node hnode
    obtain ⟨branch, hbranch, hisBranch, -⟩ := derive_branch? hgrown h hnode
    exact ⟨branch, hbranch, hisBranch.index_eq, hisBranch.children_eq, hisBranch.defaultChild⟩

theorem derive_paths_parting :
    Parting.tree.Grown Bare ∧ Parting.tree.derive Parting.table [] = .ok Parting.ruleSet ∧
      Parting.tree.leaves = [1, 2] ∧ Parting.ruleSet.rules.map (·.outcome.node) = [1, 2] ∧
      Parting.ruleSet.rules.map (·.path) = [[0, 1], [0, 2]] ∧
      (∀ route, Parting.tree.Leads route 2 ↔ route = [0, 2]) ∧
      Parting.ruleSet.branch? 2 = some (Parting.leafBranch 2 "2" "b" (.constant true)) := by
  have hgrown := Document.toTree_grown Parting.toTree_eq
  have hleaves : Parting.tree.leaves = [1, 2] := by decide +kernel
  obtain ⟨⟨hends, -⟩, hrules, -⟩ := derive_paths hgrown Parting.derive_eq
  have hlast : Parting.leafRule 2 "2" "b" (.constant true) ∈ Parting.ruleSet.rules := by
    simp [Parting.ruleSet, Parting.ruleSetOf]
  obtain ⟨hway, -⟩ := hrules _ hlast
  exact ⟨hgrown, Parting.derive_eq, hleaves, hends.trans hleaves, rfl, hway, rfl⟩

end Derive

end Tree
end ScoringTree
