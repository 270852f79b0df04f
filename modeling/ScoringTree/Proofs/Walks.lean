import ScoringTree.Rule.Derivation

/-!
# ScoringTree.Proofs.Walks

The walk that derives rules, without its state.

A visit to a node adds to what was found before and ends where it began: the way is the same after
it, since every node that was entered has been left. So what a visit adds depends on the way to the
node alone, and can be said as a function of it.

* `Tree.walk`        — the branches and rules from a node on, given the way to it.
* `Walk.gather`      — the state with more branches and rules, at the same place.
* `Tree.visit_eq`    — a visit gathers what `Tree.walk` finds.
* `Tree.visit_way`   — the way after a visit is the way before it.
-/

namespace ScoringTree

/-- What a walk finds from a node on. -/
structure Harvest where
  branches : List Branch
  rules : List Rule

namespace Tree

/-- The way that goes on through a node with its branch. -/
def onward (way : List Waypoint) (index : Nat) (node : Node) (branch : Branch) : List Waypoint :=
  way ++ [⟨index, node.id, branch.condition⟩]

mutual

/-- The branches and rules from one node on, which `way` leads to. The first argument bounds the
length of the way. -/
def walk (tree : Tree) (table : FieldTable) (guards : List Condition) :
    Nat → List Waypoint → Nat → Except DerivationError Harvest
  | 0, way, _ => .error (.malformed tree.modelName (.endless (pathText way "")))
  | fuel + 1, way, index =>
    match tree.node? index with
    | none => .error (.malformed tree.modelName (.endless (pathText way "")))
    | some node =>
      match tree.branchAt table way index node with
      | .error e => .error e
      | .ok branch =>
        if node.isLeaf then
          match branch.outcome with
          | none =>
            .error (.malformed tree.modelName (.unscoredLeaf (pathText way node.id)))
          | some outcome =>
            .ok ⟨[branch], [ruleOf (onward way index node branch) guards outcome]⟩
        else
          match walkAll tree table guards fuel (onward way index node branch) node.children with
          | .error e => .error e
          | .ok below => .ok ⟨branch :: below.branches, below.rules⟩

def walkAll (tree : Tree) (table : FieldTable) (guards : List Condition) :
    Nat → List Waypoint → List Nat → Except DerivationError Harvest
  | _, _, [] => .ok ⟨[], []⟩
  | fuel, way, index :: rest =>
    match walk tree table guards fuel way index with
    | .error e => .error e
    | .ok first =>
      match walkAll tree table guards fuel way rest with
      | .error e => .error e
      | .ok others => .ok ⟨first.branches ++ others.branches, first.rules ++ others.rules⟩

end

end Tree

namespace Walk

/-- The state with more branches and rules, at the same place. -/
def gather (walk : Walk) (harvest : Harvest) : Walk :=
  { walk with
    branches := walk.branches ++ harvest.branches, rules := walk.rules ++ harvest.rules }

theorem gather_nil (walk : Walk) : walk.gather ⟨[], []⟩ = walk := by
  simp [gather]

theorem gather_gather (walk : Walk) (first others : Harvest) :
    (walk.gather first).gather others =
      walk.gather ⟨first.branches ++ others.branches, first.rules ++ others.rules⟩ := by
  simp [gather]

/-- A node that is entered and left brings its branch and what is found in between. -/
theorem leave_gather_enter (walk : Walk) (index : Nat) (node : Node) (branch : Branch)
    (below : Harvest) :
    ((walk.enter index node branch).gather below).leave =
      walk.gather ⟨branch :: below.branches, below.rules⟩ := by
  simp [enter, gather, leave]

theorem leave_conclude_enter (walk : Walk) (index : Nat) (node : Node) (branch : Branch)
    (guards : List Condition) (outcome : Outcome) :
    ((walk.enter index node branch).conclude guards outcome).leave =
      walk.gather
        ⟨[branch], [Tree.ruleOf (Tree.onward walk.way index node branch) guards outcome]⟩ := by
  simp [enter, conclude, gather, leave, Tree.onward]

end Walk

namespace Tree

variable {tree : Tree} {table : FieldTable} {guards : List Condition}

/-- A visit gathers what is found from the node on, and comes back to where it began. -/
theorem visit_eq : ∀ fuel (walk : Walk) (index : Nat),
    tree.visit table guards fuel walk index =
      (tree.walk table guards fuel walk.way index).map walk.gather := by
  intro fuel
  induction fuel with
  | zero => intro walk index; simp only [visit, Tree.walk, Except.map]
  | succ fuel ih =>
    -- the same for a list of positions: each visit begins where the one before it ended
    have hall : ∀ (indices : List Nat) (walk : Walk),
        tree.visitAll table guards fuel walk indices =
          (tree.walkAll table guards fuel walk.way indices).map walk.gather := by
      intro indices
      induction indices with
      | nil =>
        intro walk
        simp only [visitAll, walkAll, Except.map, walk.gather_nil]
      | cons index rest ihr =>
        intro walk
        simp only [visitAll, walkAll, ih]
        cases tree.walk table guards fuel walk.way index with
        | error e => rfl
        | ok first =>
          simp only [Except.map, ihr, show (walk.gather first).way = walk.way from rfl]
          cases tree.walkAll table guards fuel walk.way rest with
          | error e => rfl
          | ok others => simp only [walk.gather_gather]
    intro walk index
    simp only [visit, Tree.walk]
    cases tree.node? index with
    | none => rfl
    | some node =>
      dsimp only
      cases tree.branchAt table walk.way index node with
      | error e => rfl
      | ok branch =>
        dsimp only
        split
        · cases branch.outcome with
          | none => rfl
          | some outcome =>
            simp only [Except.map, walk.leave_conclude_enter]
        · simp only [hall, show (walk.enter index node branch).way =
            onward walk.way index node branch from rfl]
          cases tree.walkAll table guards fuel (onward walk.way index node branch)
              node.children with
          | error e => rfl
          | ok below => simp only [Except.map, walk.leave_gather_enter]

/-- What a visit that succeeds has found. -/
theorem visit_ok {fuel : Nat} {walk left : Walk} {index : Nat}
    (h : tree.visit table guards fuel walk index = .ok left) :
    ∃ harvest, tree.walk table guards fuel walk.way index = .ok harvest ∧
      left = walk.gather harvest := by
  rw [visit_eq] at h
  cases hwalk : tree.walk table guards fuel walk.way index with
  | error e => simp [hwalk, Except.map] at h
  | ok harvest =>
    rw [hwalk] at h
    cases h
    exact ⟨harvest, rfl, rfl⟩

/-- From the start, a visit ends with what is found and at no place. -/
theorem visit_start {fuel index : Nat} {harvest : Harvest}
    (h : tree.walk table guards fuel [] index = .ok harvest) :
    tree.visit table guards fuel .start index = .ok ⟨harvest.branches, harvest.rules, []⟩ := by
  rw [visit_eq, show Walk.start.way = [] from rfl, h]
  rfl

/-- Every node that a visit enters is left again. -/
theorem visit_way {fuel : Nat} {walk left : Walk} {index : Nat}
    (h : tree.visit table guards fuel walk index = .ok left) : left.way = walk.way := by
  obtain ⟨harvest, -, rfl⟩ := visit_ok h
  rfl

end Tree
end ScoringTree
