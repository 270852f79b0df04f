import Mathlib.Data.List.Nodup
import ScoringTree.Model.Tree

/-!
# ScoringTree.Proofs.Arena

How the positions of a tree hang together.

* `Tree.Grown`     — the tree was made by adding nodes of an allowed kind, one after the other.
* `Tree.Proper`    — every position but the root is the child of exactly one node before it.
* `Tree.preorder`  — the positions met depth first from one on.

A tree grown from nodes that bring no children along is proper (`Grown.proper`), and a walk from
its root meets every position exactly once (`Grown.preorder_perm`). The tree of a document is
grown that way (`toTree_grown`).
-/

namespace ScoringTree
namespace Tree

/-- The children of the node at a position; none where there is no node. -/
def childrenAt (tree : Tree) (index : Nat) : List Nat :=
  match tree.node? index with
  | some node => node.children
  | none => []

theorem childrenAt_of_node {tree : Tree} {index : Nat} {node : Node}
    (h : tree.node? index = some node) : tree.childrenAt index = node.children := by
  simp [childrenAt, h]

theorem node?_lt {tree : Tree} {index : Nat} {node : Node} (h : tree.node? index = some node) :
    index < tree.size :=
  (List.getElem?_eq_some_iff.mp h).1

theorem exists_node {tree : Tree} {index : Nat} (h : index < tree.size) :
    ∃ node, tree.node? index = some node :=
  ⟨_, List.getElem?_eq_getElem h⟩

theorem childrenAt_eq_nil {tree : Tree} {index : Nat} (h : tree.size ≤ index) :
    tree.childrenAt index = [] := by
  have : tree.node? index = none := List.getElem?_eq_none h
  simp [childrenAt, this]

/-! ## One step of growth -/

theorem addRoot_ok {tree tree' : Tree} {node : Node} {index : Nat}
    (h : tree.addRoot node = (.ok index, tree')) :
    tree.nodes = [] ∧ index = 0 ∧ tree' = { tree with nodes := [node] } := by
  simp only [addRoot] at h
  split at h
  · rename_i hempty
    have hnil := List.isEmpty_iff.mp hempty
    cases h
    exact ⟨hnil, rfl, by rw [hnil, List.nil_append]⟩
  · cases h

/-- A call that fails leaves the tree as it was. -/
theorem addRoot_error {tree : Tree} {node : Node} {e : InvalidModel}
    (h : (tree.addRoot node).1 = .error e) : (tree.addRoot node).2 = tree := by
  simp only [addRoot] at h ⊢
  split at h
  · cases h
  · rename_i hempty
    rw [if_neg hempty]

theorem appendChild_append {nodes : List Node} {parent : Nat} (child : Nat) (node : Node)
    (h : parent < nodes.length) :
    appendChild (nodes ++ [node]) parent child = appendChild nodes parent child ++ [node] := by
  induction nodes generalizing parent with
  | nil => simp at h
  | cons first rest ih =>
    cases parent with
    | zero => rfl
    | succ p =>
      simp only [appendChild, List.cons_append, List.modify_succ_cons] at ih ⊢
      rw [ih (by simpa using h)]

theorem addChild_ok {tree tree' : Tree} {parent index : Nat} {node : Node}
    (h : tree.addChild parent node = (.ok index, tree')) :
    parent < tree.size ∧ index = tree.size ∧
      tree' = { tree with nodes := appendChild tree.nodes parent tree.size ++ [node] } := by
  simp only [addChild] at h
  split at h
  · rename_i hlt
    cases h
    exact ⟨hlt, rfl, by rw [appendChild_append _ _ hlt]⟩
  · cases h

/-- A call that fails leaves the tree as it was. -/
theorem addChild_error {tree : Tree} {parent : Nat} {node : Node} {e : InvalidModel}
    (h : (tree.addChild parent node).1 = .error e) : (tree.addChild parent node).2 = tree := by
  simp only [addChild] at h ⊢
  split at h
  · cases h
  · rename_i hlt
    rw [if_neg hlt]

theorem addRoot_size {tree tree' : Tree} {node : Node} {index : Nat}
    (h : tree.addRoot node = (.ok index, tree')) : tree'.size = 1 := by
  obtain ⟨-, -, rfl⟩ := addRoot_ok h
  rfl

theorem addChild_size {tree tree' : Tree} {parent index : Nat} {node : Node}
    (h : tree.addChild parent node = (.ok index, tree')) : tree'.size = tree.size + 1 := by
  obtain ⟨-, -, rfl⟩ := addChild_ok h
  simp [size, appendChild]

theorem addRoot_childrenAt {tree tree' : Tree} {node : Node} {index : Nat}
    (h : tree.addRoot node = (.ok index, tree')) (i : Nat) :
    tree'.childrenAt i = if i = 0 then node.children else [] := by
  obtain ⟨-, -, rfl⟩ := addRoot_ok h
  cases i with
  | zero => rfl
  | succ i => simp [childrenAt, node?]

/-- Adding a child changes the children of its parent only, and brings those of the new node. -/
theorem addChild_childrenAt {tree tree' : Tree} {parent index : Nat} {node : Node}
    (h : tree.addChild parent node = (.ok index, tree')) (i : Nat) :
    tree'.childrenAt i =
      if i = tree.size then node.children
      else if i = parent then tree.childrenAt i ++ [tree.size]
      else tree.childrenAt i := by
  obtain ⟨hlt, -, rfl⟩ := addChild_ok h
  simp only [childrenAt, node?, appendChild]
  have hlen : (tree.nodes.modify parent fun node =>
      { node with children := node.children ++ [tree.size] }).length = tree.size := by
    simp [size]
  rcases Nat.lt_trichotomy i tree.size with hi | hi | hi
  · rw [List.getElem?_append_left (by omega), List.getElem?_modify, if_neg (by omega)]
    have hsome : tree.nodes[i]? = some tree.nodes[i] := List.getElem?_eq_getElem hi
    by_cases hp : i = parent
    · subst hp
      simp [hsome]
    · simp [hsome, hp, Ne.symm hp]
  · rw [List.getElem?_append_right (by omega), hlen, hi]
    simp
  · rw [List.getElem?_append_right (by omega), hlen]
    have hnone : tree.nodes[i]? = none := List.getElem?_eq_none (Nat.le_of_lt hi)
    have hpos : i - tree.size ≠ 0 := by omega
    have hne : i ≠ parent := by omega
    simp [hnone, hpos, hne, Nat.ne_of_gt hi]

/-! ## Whole growth -/

/-- A tree made from an empty one by adding nodes, each allowed at the tree it is added to. -/
inductive Grown (allowed : Tree → Node → Prop) : Tree → Prop where
  | empty (settings : Settings) : Grown allowed { settings with nodes := [] }
  | root {tree tree' : Tree} {node : Node} {index : Nat} : Grown allowed tree →
      allowed tree node → tree.addRoot node = (.ok index, tree') → Grown allowed tree'
  | child {tree tree' : Tree} {parent index : Nat} {node : Node} : Grown allowed tree →
      allowed tree node → tree.addChild parent node = (.ok index, tree') → Grown allowed tree'

/-- A node that brings no children along. -/
def Bare (_ : Tree) (node : Node) : Prop := node.children = []

/-- A node that can be had at a tree: a bare one, or a copy of a stored one, made now or before
that one got its last children. -/
def Obtainable (tree : Tree) (node : Node) : Prop :=
  node.children = [] ∨ ∃ index, index < tree.size ∧ node.children <+: tree.childrenAt index

theorem Grown.mono {allowed allowed' : Tree → Node → Prop}
    (himp : ∀ tree node, allowed tree node → allowed' tree node) {tree : Tree}
    (h : tree.Grown allowed) : tree.Grown allowed' := by
  induction h with
  | empty settings => exact .empty settings
  | root _ ha hadd ih => exact .root ih (himp _ _ ha) hadd
  | child _ ha hadd ih => exact .child ih (himp _ _ ha) hadd

/-- Children exist, and stand in the order in which they were added. -/
structure Linked (tree : Tree) : Prop where
  inside : ∀ i, ∀ c ∈ tree.childrenAt i, c < tree.size
  ordered : ∀ i, (tree.childrenAt i).Pairwise (· < ·)

/-- Every position but the root is the child of exactly one node, which stands before it. -/
structure Proper (tree : Tree) : Prop extends tree.Linked where
  behind : ∀ i, ∀ c ∈ tree.childrenAt i, i < c
  once : (tree.nodes.flatMap (·.children)).Perm (List.range' 1 (tree.size - 1))

theorem Grown.linked {tree : Tree} (h : tree.Grown Obtainable) : tree.Linked := by
  induction h with
  | empty settings => constructor <;> intro i <;> simp [childrenAt, node?]
  | @root tree tree' node index _ ha hadd _ =>
    -- the tree was empty, so there was no node to take children from
    have hbare : node.children = [] := by
      obtain ⟨hnil, -, -⟩ := addRoot_ok hadd
      rcases ha with h | ⟨i, hi, -⟩
      · exact h
      · simp [size, hnil] at hi
    constructor <;> intro i <;> rw [addRoot_childrenAt hadd i, hbare] <;> simp
  | @child tree tree' parent index node _ ha hadd ih =>
    have hsize := addChild_size hadd
    have hin : ∀ c ∈ node.children, c < tree.size := by
      rcases ha with h | ⟨i, -, h⟩
      · simp [h]
      · exact fun c hc => ih.inside i c (h.subset hc)
    have hord : node.children.Pairwise (· < ·) := by
      rcases ha with h | ⟨i, -, h⟩
      · simp [h]
      · exact (ih.ordered i).sublist h.sublist
    constructor
    · intro i c hc
      rw [addChild_childrenAt hadd i] at hc
      split at hc
      · have := hin c hc; omega
      · split at hc
        · rcases List.mem_append.mp hc with hc | hc
          · have := ih.inside i c hc; omega
          · simp at hc; omega
        · have := ih.inside i c hc; omega
    · intro i
      rw [addChild_childrenAt hadd i]
      split
      · exact hord
      · split
        · refine List.pairwise_append.mpr ⟨ih.ordered i, by simp, ?_⟩
          intro a ha b hb
          simp only [List.mem_singleton] at hb
          subst hb
          exact ih.inside i a ha
        · exact ih.ordered i

theorem appendChild_children {nodes : List Node} {parent : Nat} (child : Nat)
    (h : parent < nodes.length) :
    ((appendChild nodes parent child).flatMap (·.children)).Perm
      (nodes.flatMap (·.children) ++ [child]) := by
  induction nodes generalizing parent with
  | nil => simp at h
  | cons first rest ih =>
    cases parent with
    | zero =>
      simp only [appendChild, List.modify_zero_cons, List.flatMap_cons, List.append_assoc]
      exact List.perm_append_comm.append_left _
    | succ p =>
      simp only [appendChild, List.modify_succ_cons, List.flatMap_cons,
        List.append_assoc] at ih ⊢
      exact (ih (by simpa using h)).append_left _

theorem Grown.proper {tree : Tree} (h : tree.Grown Bare) : tree.Proper := by
  have hlinked : tree.Linked := (h.mono fun _ _ hb => Or.inl hb).linked
  induction h with
  | empty settings =>
    exact { hlinked with behind := by intro i; simp [childrenAt, node?], once := by simp [size] }
  | @root tree tree' node index _ hbare hadd _ =>
    refine { hlinked with behind := ?_, once := ?_ }
    · intro i
      rw [addRoot_childrenAt hadd i, show node.children = [] from hbare]
      simp
    · obtain ⟨-, -, rfl⟩ := addRoot_ok hadd
      simp [size, show node.children = [] from hbare]
  | @child tree tree' parent index node hg hbare hadd ih =>
    have ih := ih (hg.mono fun _ _ hb => Or.inl hb).linked
    obtain ⟨hlt, -, heq⟩ := addChild_ok hadd
    refine { hlinked with behind := ?_, once := ?_ }
    · intro i c hc
      rw [addChild_childrenAt hadd i, show node.children = [] from hbare] at hc
      split at hc
      · simp at hc
      · split at hc
        · rcases List.mem_append.mp hc with hc | hc
          · exact ih.behind i c hc
          · simp at hc; omega
        · exact ih.behind i c hc
    · have hsize := addChild_size hadd
      have hrange : List.range' 1 (tree'.size - 1) =
          List.range' 1 (tree.size - 1) ++ [tree.size] := by
        have : tree'.size - 1 = (tree.size - 1) + 1 := by omega
        rw [this, List.range'_concat]
        have : 1 + 1 * (tree.size - 1) = tree.size := by omega
        rw [this]
      rw [hrange, heq]
      simp only [List.flatMap_append, List.flatMap_singleton, show node.children = [] from hbare,
        List.append_nil]
      exact (appendChild_children _ hlt).trans (ih.once.append_right _)

/-! ## Walks from the root -/

/-- A position that is the start or a child of a reached one. -/
inductive Reaches (tree : Tree) (start : Nat) : Nat → Prop where
  | here : Reaches tree start start
  | down {i c : Nat} : Reaches tree start i → c ∈ tree.childrenAt i → Reaches tree start c

theorem addChild_mem_childrenAt {tree tree' : Tree} {parent index : Nat} {node : Node}
    (h : tree.addChild parent node = (.ok index, tree')) {i c : Nat}
    (hc : c ∈ tree.childrenAt i) : c ∈ tree'.childrenAt i := by
  have hi : ¬ i = tree.size := by
    intro hi
    rw [hi, childrenAt_eq_nil (Nat.le_refl _)] at hc
    simp at hc
  rw [addChild_childrenAt h i, if_neg hi]
  split
  · exact List.mem_append_left _ hc
  · exact hc

theorem Reaches.addChild {tree tree' : Tree} {parent index : Nat} {node : Node}
    (h : tree.addChild parent node = (.ok index, tree')) {start i : Nat}
    (hr : tree.Reaches start i) : tree'.Reaches start i := by
  induction hr with
  | here => exact .here
  | down _ hc ih => exact .down ih (addChild_mem_childrenAt h hc)

theorem Grown.reaches {allowed : Tree → Node → Prop} {tree : Tree} (h : tree.Grown allowed) :
    ∀ i, i < tree.size → tree.Reaches 0 i := by
  induction h with
  | empty settings => intro i hi; simp [size] at hi
  | root _ _ hadd _ =>
    intro i hi
    rw [addRoot_size hadd] at hi
    have : i = 0 := by omega
    subst this
    exact .here
  | @child tree tree' parent index node _ _ hadd ih =>
    intro i hi
    rw [addChild_size hadd] at hi
    by_cases hlt : i < tree.size
    · exact (ih i hlt).addChild hadd
    · have heq : i = tree.size := by omega
      obtain ⟨hp, -, -⟩ := addChild_ok hadd
      refine .down ((ih parent hp).addChild hadd) ?_
      rw [addChild_childrenAt hadd parent, if_neg (by omega), if_pos rfl, heq]
      simp

/-- The positions met depth first from one on. The first argument bounds the depth. -/
def preorder (tree : Tree) : Nat → Nat → List Nat
  | 0, _ => []
  | fuel + 1, index => index :: (tree.childrenAt index).flatMap (preorder tree fuel)

/-- The walk after a child was added: the new position follows each visit to its parent. -/
theorem preorder_addChild {tree tree' : Tree} {parent index : Nat} {node : Node}
    (hlinked : tree.Linked) (hbehind : ∀ i, ∀ c ∈ tree.childrenAt i, i < c)
    (hbare : node.children = []) (hadd : tree.addChild parent node = (.ok index, tree')) :
    ∀ fuel i, i < tree.size → tree.size + 1 - i ≤ fuel →
      (tree'.preorder fuel i).Perm (tree.preorder fuel i ++
        List.replicate ((tree.preorder fuel i).count parent) tree.size) := by
  intro fuel
  induction fuel with
  | zero => intro i hi hf; omega
  | succ fuel ih =>
    intro i hi hf
    have hkids : ∀ cs : List Nat, (∀ c ∈ cs, c ∈ tree.childrenAt i) →
        (cs.flatMap (tree'.preorder fuel)).Perm (cs.flatMap (tree.preorder fuel) ++
          List.replicate ((cs.flatMap (tree.preorder fuel)).count parent) tree.size) := by
      intro cs
      induction cs with
      | nil => intro _; simp
      | cons c cs ihc =>
        intro hcs
        have hc := hcs c (by simp)
        have hgt := hbehind i c hc
        have h1 := ih c (hlinked.inside i c hc) (by omega)
        have h2 := ihc fun d hd => hcs d (by simp [hd])
        simp only [List.flatMap_cons, List.count_append, List.replicate_add]
        refine (h1.append h2).trans ?_
        simp only [List.append_assoc]
        refine List.Perm.append_left _ ?_
        simp only [← List.append_assoc]
        exact List.perm_append_comm.append_right _
    have hall := hkids (tree.childrenAt i) fun _ hc => hc
    have hchildren := addChild_childrenAt hadd i
    rw [if_neg (by omega)] at hchildren
    by_cases hp : i = parent
    · subst hp
      -- the new position is a leaf, so the walk through it is that position alone
      have hleaf : tree'.preorder fuel tree.size = [tree.size] := by
        cases fuel with
        | zero => omega
        | succ f => simp [preorder, addChild_childrenAt hadd, hbare]
      simp only [preorder, hchildren, if_pos, List.flatMap_append, List.flatMap_singleton, hleaf,
        List.count_cons_self, List.cons_append]
      refine List.Perm.cons _ ((hall.append_right _).trans ?_)
      rw [List.append_assoc, ← List.replicate_succ']
    · rw [if_neg hp] at hchildren
      simp only [preorder, hchildren, List.count_cons_of_ne hp, List.cons_append]
      exact List.Perm.cons _ hall

/-- A walk from the root meets every position exactly once. -/
theorem Grown.preorder_perm {tree : Tree} (h : tree.Grown Bare) :
    ∀ fuel, tree.size ≤ fuel → tree.nodes ≠ [] →
      (tree.preorder fuel 0).Perm (List.range tree.size) := by
  induction h with
  | empty settings => intro fuel _ hne; simp at hne
  | @root tree tree' node index _ hbare hadd _ =>
    intro fuel hf _
    have hsize := addRoot_size hadd
    rw [hsize] at hf ⊢
    cases fuel with
    | zero => omega
    | succ fuel =>
      simp [preorder, addRoot_childrenAt hadd, show node.children = [] from hbare]
  | @child tree tree' parent index node hg hbare hadd ih =>
    intro fuel hf _
    have hsize := addChild_size hadd
    obtain ⟨hp, -, -⟩ := addChild_ok hadd
    have hne : tree.nodes ≠ [] := by
      intro hnil
      simp [size, hnil] at hp
    have hproper := hg.proper
    have hwalk := preorder_addChild hproper.toLinked hproper.behind hbare hadd fuel 0
      (by omega) (by omega)
    have hold := ih fuel (by omega) hne
    have hcount : (tree.preorder fuel 0).count parent = 1 := by
      rw [hold.count_eq]
      exact List.count_eq_one_of_mem List.nodup_range (List.mem_range.mpr hp)
    rw [hcount] at hwalk
    rw [hsize, List.range_succ]
    exact hwalk.trans (hold.append_right _)

/-! ## Trees of documents -/

end Tree

namespace Planting

theorem toNode_bare (tree : Tree) (content : NodeContent) (id : Option String) (counter : Nat) :
    tree.Bare (content.toNode id counter).1 := rfl

mutual

theorem addNested_grown {planting grown : Planting} {parent : Nat}
    (hg : planting.tree.Grown Tree.Bare) :
    ∀ nested : NestedNode, planting.addNested parent nested = .ok grown →
      grown.tree.Grown Tree.Bare
  | ⟨content, id, children⟩, h => by
    simp only [addNested] at h
    split at h
    · rename_i hadd
      exact addNestedAll_grown (.child hg (toNode_bare ..) hadd) children h
    · cases h

theorem addNestedAll_grown {planting grown : Planting} {parent : Nat}
    (hg : planting.tree.Grown Tree.Bare) :
    ∀ nested : List NestedNode, planting.addNestedAll parent nested = .ok grown →
      grown.tree.Grown Tree.Bare
  | [], h => by
    simp only [addNestedAll] at h
    cases h
    exact hg
  | n :: ns, h => by
    simp only [addNestedAll] at h
    split at h
    · rename_i hadd
      exact addNestedAll_grown (addNested_grown hg n hadd) ns h
    · cases h

end

end Planting

namespace Document

theorem toTree_grown {document : Document} {tree : Tree} (h : document.toTree = .ok tree) :
    tree.Grown Tree.Bare := by
  have hempty : Tree.Grown Tree.Bare { document.settings with nodes := [] } := .empty _
  simp only [toTree] at h
  split at h
  · cases h
    exact hempty
  · split at h
    · rename_i hadd
      have hroot := hempty.root (Planting.toNode_bare ..) hadd
      split at h
      · rename_i hplanted
        cases h
        exact Planting.addNestedAll_grown hroot _ hplanted
      · cases h
    · cases h

end Document
end ScoringTree
