import Mathlib.Data.Set.Card
import ScoringTree.Proofs.Arena
import ScoringTree.Scoring.Evaluation

/-!
# ScoringTree.Proofs.Growth

Trees after any sequence of calls that add nodes.

The node of a call is a new one or a copy of one that is stored. A copy brings children of the
stored node along, and then the positions are no tree any more: a position is the child of two
nodes, and may even be reached from itself. `Tree.after_calls` says what holds in any case, and
that the positions form a tree exactly when every node that was stored came without children.

* `Call.apply`       — the tree after a call; one that fails leaves it as it was
                       (`Call.apply_of_error`).
* `Tree.after`       — the tree after all calls.
* `Tree.Admits`      — the node of every call can be had when the call is made.
* `Tree.StoresBare`  — every node that is stored comes without children.
-/

namespace ScoringTree

inductive Call where
  | root (node : Node)
  | child (parent : Nat) (node : Node)

namespace Call

def node : Call → Node
  | .root node => node
  | .child _ node => node

def perform (tree : Tree) : Call → Except InvalidModel Nat × Tree
  | .root node => tree.addRoot node
  | .child parent node => tree.addChild parent node

/-- The tree after a call. -/
def apply (tree : Tree) (call : Call) : Tree := (call.perform tree).2

/-- A call that fails leaves the tree as it was. -/
theorem apply_of_error {tree : Tree} {call : Call} {e : InvalidModel}
    (h : (call.perform tree).1 = .error e) : call.apply tree = tree := by
  cases call with
  | root node => exact Tree.addRoot_error h
  | child parent node => exact Tree.addChild_error h

/-- What a call can do: nothing, or one of the two steps of growth. -/
theorem apply_cases (tree : Tree) (call : Call) :
    (call.apply tree = tree ∧ ∃ e, (call.perform tree).1 = .error e) ∨
      (∃ node index, call = .root node ∧ tree.addRoot node = (.ok index, call.apply tree)) ∨
      ∃ parent node index, call = .child parent node ∧
        tree.addChild parent node = (.ok index, call.apply tree) := by
  cases hperform : (call.perform tree).1 with
  | error e => exact Or.inl ⟨apply_of_error hperform, e, rfl⟩
  | ok index =>
    have hresult : call.perform tree = (.ok index, call.apply tree) := Prod.ext hperform rfl
    cases call with
    | root node => exact Or.inr (Or.inl ⟨node, index, rfl, hresult⟩)
    | child parent node => exact Or.inr (Or.inr ⟨parent, node, index, rfl, hresult⟩)

end Call

namespace Tree

def after (tree : Tree) : List Call → Tree
  | [] => tree
  | call :: rest => (call.apply tree).after rest

/-- The node of every call can be had when the call is made. -/
def Admits (tree : Tree) : List Call → Prop
  | [] => True
  | call :: rest => tree.Obtainable call.node ∧ (call.apply tree).Admits rest

/-- Every node that is stored comes without children. -/
def StoresBare (tree : Tree) : List Call → Prop
  | [] => True
  | call :: rest =>
    ((∃ index, (call.perform tree).1 = .ok index) → call.node.children = []) ∧
      (call.apply tree).StoresBare rest

theorem after_append (tree : Tree) (calls calls' : List Call) :
    tree.after (calls ++ calls') = (tree.after calls).after calls' := by
  induction calls generalizing tree with
  | nil => rfl
  | cons call rest ih => exact ih (call.apply tree)

/-! ## One call -/

theorem Grown.apply {allowed : Tree → Node → Prop} {tree : Tree} {call : Call}
    (h : tree.Grown allowed)
    (hallowed : (∃ index, (call.perform tree).1 = .ok index) → allowed tree call.node) :
    (call.apply tree).Grown allowed := by
  rcases call.apply_cases tree with ⟨hsame, -⟩ | ⟨node, index, rfl, hadd⟩ |
    ⟨parent, node, index, rfl, hadd⟩
  · rw [hsame]
    exact h
  · exact .root h (hallowed ⟨index, congrArg Prod.fst hadd⟩) hadd
  · exact .child h (hallowed ⟨index, congrArg Prod.fst hadd⟩) hadd

theorem mem_apply {tree : Tree} {i c : Nat} (hc : c ∈ tree.childrenAt i) (call : Call) :
    c ∈ (call.apply tree).childrenAt i := by
  rcases call.apply_cases tree with ⟨hsame, -⟩ | ⟨node, index, rfl, hadd⟩ |
    ⟨parent, node, index, rfl, hadd⟩
  · rw [hsame]
    exact hc
  · obtain ⟨hnil, -, -⟩ := addRoot_ok hadd
    simp [childrenAt, node?, hnil] at hc
  · exact addChild_mem_childrenAt hadd hc

/-- A node that is stored with a child stands behind that child. -/
theorem apply_not_behind {tree : Tree} {call : Call} (hlinked : tree.Linked)
    (hnode : tree.Obtainable call.node) {position : Nat}
    (hperform : (call.perform tree).1 = .ok position) {c : Nat} (hc : c ∈ call.node.children) :
    c < tree.size ∧ c ∈ (call.apply tree).childrenAt tree.size := by
  have hinside : c < tree.size := by
    rcases hnode with hbare | ⟨i, -, hcopy⟩
    · simp [hbare] at hc
    · exact hlinked.inside i c (hcopy.subset hc)
  refine ⟨hinside, ?_⟩
  rcases call.apply_cases tree with ⟨-, e, he⟩ | ⟨node, index, rfl, hadd⟩ |
    ⟨parent, node, index, rfl, hadd⟩
  · rw [hperform] at he
    cases he
  · obtain ⟨hnil, -, -⟩ := addRoot_ok hadd
    simp [size, hnil] at hinside
  · rw [addChild_childrenAt hadd, if_pos rfl]
    exact hc

/-! ## All calls -/

theorem Grown.after_admits {tree : Tree} {calls : List Call} (h : tree.Grown Obtainable)
    (hadmits : tree.Admits calls) : (tree.after calls).Grown Obtainable := by
  induction calls generalizing tree with
  | nil => exact h
  | cons call rest ih => exact ih (h.apply fun _ => hadmits.1) hadmits.2

theorem Grown.after_bare {tree : Tree} {calls : List Call} (h : tree.Grown Bare)
    (hbare : tree.StoresBare calls) : (tree.after calls).Grown Bare := by
  induction calls generalizing tree with
  | nil => exact h
  | cons call rest ih => exact ih (h.apply hbare.1) hbare.2

theorem mem_after {tree : Tree} {i c : Nat} (hc : c ∈ tree.childrenAt i) (calls : List Call) :
    c ∈ (tree.after calls).childrenAt i := by
  induction calls generalizing tree with
  | nil => exact hc
  | cons call rest ih => exact ih (mem_apply hc call)

/-- What a copy has done to the positions stays. -/
theorem storesBare_of_behind {tree : Tree} {calls : List Call} (h : tree.Grown Obtainable)
    (hadmits : tree.Admits calls)
    (hbehind : ∀ i, ∀ c ∈ (tree.after calls).childrenAt i, i < c) : tree.StoresBare calls := by
  induction calls generalizing tree with
  | nil => trivial
  | cons call rest ih =>
    refine ⟨?_, ih (h.apply fun _ => hadmits.1) hadmits.2 hbehind⟩
    rintro ⟨position, hperform⟩
    by_contra hchildren
    obtain ⟨c, hc⟩ := List.exists_mem_of_ne_nil _ hchildren
    obtain ⟨hinside, hmem⟩ := apply_not_behind h.linked hadmits.1 hperform hc
    have := hbehind tree.size c (mem_after hmem rest)
    omega

/-! ## Leaves -/

theorem countP_eq_card {α : Type} (p : α → Bool) (l : List α) :
    l.countP p = ((Finset.range l.length).filter fun k => (l[k]?).any p = true).card := by
  induction l using List.reverseRecOn with
  | nil => rfl
  | append_singleton l a ih =>
    have hsame : ((Finset.range l.length).filter fun k => ((l ++ [a])[k]?).any p = true) =
        (Finset.range l.length).filter fun k => (l[k]?).any p = true := by
      refine Finset.filter_congr fun k hk => ?_
      rw [List.getElem?_append_left (Finset.mem_range.mp hk)]
    have hlast : ((l ++ [a])[l.length]?).any p = p a := by simp
    rw [List.countP_append, ih, List.length_append, List.length_singleton, Finset.range_add_one,
      Finset.filter_insert, hlast, hsame]
    cases hp : p a with
    | true =>
      rw [if_pos rfl, Finset.card_insert_of_notMem (by simp)]
      simp [hp]
    | false => simp [hp]

/-- The leaves that are reached from the root. -/
def reachedLeaves (tree : Tree) : Set Nat :=
  { k | tree.Reaches 0 k ∧ ∃ node, tree.node? k = some node ∧ node.isLeaf = true }

/-- Every node is reached from the root, so all leaves are counted. -/
theorem Grown.leafCount_eq {allowed : Tree → Node → Prop} {tree : Tree} (h : tree.Grown allowed) :
    tree.leafCount = tree.reachedLeaves.ncard := by
  have hset : tree.reachedLeaves =
      ↑((Finset.range tree.nodes.length).filter fun k =>
        (tree.nodes[k]?).any Node.isLeaf = true) := by
    ext k
    simp only [reachedLeaves, node?, Set.mem_ofPred_eq, Finset.coe_filter, Finset.mem_range,
      Option.any_eq_true]
    constructor
    · rintro ⟨-, node, hnode, hleaf⟩
      exact ⟨(List.getElem?_eq_some_iff.mp hnode).1, node, hnode, hleaf⟩
    · rintro ⟨hlt, hleaf⟩
      exact ⟨h.reaches k hlt, hleaf⟩
  rw [hset, Set.ncard_coe_finset, leafCount, countP_eq_card]

/-- After any calls the children of a node are there and stand in the order in which they were
added, and the leaves counted are those reached from the root. The positions form a tree exactly
when every node that was stored came without children. -/
theorem after_calls (name : String) (calls : List Call) (h : (Tree.named name).Admits calls) :
    ((Tree.named name).after calls).Linked ∧
      ((Tree.named name).after calls).leafCount =
        ((Tree.named name).after calls).reachedLeaves.ncard ∧
      (((Tree.named name).after calls).Proper ↔ (Tree.named name).StoresBare calls) ∧
      ∀ call e, (call.perform ((Tree.named name).after calls)).1 = .error e →
        (Tree.named name).after (calls ++ [call]) = (Tree.named name).after calls := by
  have hempty : ∀ allowed, (Tree.named name).Grown allowed := fun _ => .empty (Settings.named name)
  have hgrown := (hempty Obtainable).after_admits h
  refine ⟨hgrown.linked, hgrown.leafCount_eq, ⟨?_, ?_⟩, ?_⟩
  · intro hproper
    exact storesBare_of_behind (hempty Obtainable) h hproper.behind
  · intro hbare
    exact ((hempty Bare).after_bare hbare).proper
  · intro call e hfails
    rw [after_append]
    exact Call.apply_of_error hfails

/-- A root, its child, and below the child a copy of the root. -/
def circle : List Call :=
  [.root (Node.named "r"), .child 0 (Node.named "a"),
    .child 1 { Node.named "c" with children := [1] }]

theorem circle_admits : (Tree.named "m").Admits circle :=
  ⟨Or.inl rfl, Or.inl rfl, Or.inr ⟨0, by decide, List.prefix_refl _⟩, trivial⟩

theorem after_calls_circle :
    (Tree.named "m").Admits circle ∧ ((Tree.named "m").after circle).Linked ∧
      ((Tree.named "m").after circle).leafCount =
        ((Tree.named "m").after circle).reachedLeaves.ncard ∧
      (Tree.named "m").after (circle ++ [.child 3 (Node.named "d")]) =
        (Tree.named "m").after circle := by
  obtain ⟨hlinked, hleaves, -, hfails⟩ := after_calls "m" circle circle_admits
  exact ⟨circle_admits, hlinked, hleaves, hfails _ ⟨"m", .noParent 3⟩ (by decide)⟩

/-- The child has two parents, and it is below itself. -/
theorem circle_not_proper :
    (Tree.named "m").Admits circle ∧ ((Tree.named "m").after circle).childrenAt 0 = [1] ∧
      ((Tree.named "m").after circle).childrenAt 1 = [2] ∧
      ((Tree.named "m").after circle).childrenAt 2 = [1] ∧
      ¬ ((Tree.named "m").after circle).Proper ∧
      ((Tree.named "m").after circle).evaluate .empty (.object []) =
        .error (.evaluation "a" .endless) := by
  refine ⟨circle_admits, rfl, rfl, rfl, ?_, by decide +kernel⟩
  intro hproper
  have := hproper.behind 2 1 (by decide)
  omega

end Tree
end ScoringTree
