import ScoringTree.Proofs.Arena

/-!
# ScoringTree.Proofs.Flattening

The tree of a document against the nested nodes it is made from.

* `NestedNode.preorder`      — a nested node and all below it, each before its children.
* `NestedNode.numberedFrom`  — the nested node with a name for every node in it.
* `NestedNode.layout`        — the nodes it takes up in a tree, from a position on.
* `Tree.nested?`             — the nested node that a tree stands for, read through the children.

The counter that names are made from stands at the number of nodes all along
(`addNested_counted`, `addNestedAll_counted`). So growing a tree by a nested node puts its layout
behind the nodes that are there (`addNested_eq`, `addNestedAll_eq`), and reading a layout gives
back the nested node (`nestedAt?_layout`). `Document.toTree_lossless` puts the two together.
-/

namespace ScoringTree

theorem toString_injective : Function.Injective (toString : Nat → String) := by
  intro m n h
  rw [Nat.toString_eq_ofList_toDigits, Nat.toString_eq_ofList_toDigits, String.ofList_inj] at h
  rw [← Nat.ofDigitChars_ten_toDigits (n := m), h, Nat.ofDigitChars_ten_toDigits]

/-! ## Nested nodes in depth-first order -/

namespace NestedNode

mutual

/-- The node and all below it, each before its children. -/
def preorder : NestedNode → List NestedNode
  | ⟨content, id, children⟩ => ⟨content, id, children⟩ :: preorderAll children

def preorderAll : List NestedNode → List NestedNode
  | [] => []
  | n :: ns => preorder n ++ preorderAll ns

end

/-- How many nodes there are in a nested node. -/
def size (nested : NestedNode) : Nat := nested.preorder.length

mutual

/-- The nested node in which every node has a name: one without a name takes its number, and
numbers go up from `k` in depth-first order. -/
def numberedFrom (k : Nat) : NestedNode → NestedNode
  | ⟨content, id, children⟩ =>
    ⟨content, some (id.getD (toString k)), numberedAll (k + 1) children⟩

def numberedAll (k : Nat) : List NestedNode → List NestedNode
  | [] => []
  | n :: ns => numberedFrom k n :: numberedAll (k + n.size) ns

end

/-- The positions of siblings that are laid out one after the other from `k` on. -/
def positions (k : Nat) : List NestedNode → List Nat
  | [] => []
  | n :: ns => k :: positions (k + n.size) ns

mutual

/-- The nodes that a nested node takes up from position `k` on. -/
def layout (k : Nat) : NestedNode → List Node
  | ⟨content, id, children⟩ =>
    { content with id := id.getD (toString k), children := positions (k + 1) children } ::
      layoutAll (k + 1) children

def layoutAll (k : Nat) : List NestedNode → List Node
  | [] => []
  | n :: ns => layout k n ++ layoutAll (k + n.size) ns

end

theorem size_mk (content : NodeContent) (id : Option String) (children : List NestedNode) :
    size ⟨content, id, children⟩ = (preorderAll children).length + 1 := by
  simp [size, preorder]

theorem length_preorderAll_cons (n : NestedNode) (ns : List NestedNode) :
    (preorderAll (n :: ns)).length = n.size + (preorderAll ns).length := by
  simp [preorderAll, size]

/-- What a node of the tree has of the nested node that is the `k`-th in depth-first order. -/
def entry (k : Nat) (nested : NestedNode) : NodeContent × String :=
  (nested.toNodeContent, nested.id.getD (toString k))

mutual

/-- A layout holds the nested nodes in depth-first order. -/
theorem layout_entries (k : Nat) : ∀ nested : NestedNode,
    (layout k nested).map (fun node => (node.toNodeContent, node.id)) =
      nested.preorder.mapIdx fun i n => entry (k + i) n
  | ⟨content, id, children⟩ => by
    have ih := layoutAll_entries (k + 1) children
    simp only [layout, preorder, List.map_cons, List.mapIdx_cons, ih, entry]
    congr 2
    funext i n
    rw [Nat.add_assoc, Nat.add_comm 1 i]

theorem layoutAll_entries (k : Nat) : ∀ nested : List NestedNode,
    (layoutAll k nested).map (fun node => (node.toNodeContent, node.id)) =
      (preorderAll nested).mapIdx fun i n => entry (k + i) n
  | [] => rfl
  | n :: ns => by
    have ih := layout_entries k n
    have ihs := layoutAll_entries (k + n.size) ns
    simp only [layoutAll, preorderAll, List.map_append, List.mapIdx_append, ih, ihs]
    congr 2
    funext i m
    rw [Nat.add_assoc, Nat.add_comm i, size]

end

theorem length_layout (k : Nat) (nested : NestedNode) : (layout k nested).length = nested.size := by
  have := congrArg List.length (layout_entries k nested)
  simpa [size] using this

end NestedNode

/-! ## Growing by nested nodes -/

namespace Tree

/-- The node at a position gets more children, after those it has. -/
def appendChildren (nodes : List Node) (parent : Nat) (children : List Nat) : List Node :=
  nodes.modify parent fun node => { node with children := node.children ++ children }

theorem appendChildren_nil (nodes : List Node) (parent : Nat) :
    appendChildren nodes parent [] = nodes := by
  have hid : (fun node : Node => { node with children := node.children ++ [] }) = id := by
    funext node
    simp
  rw [appendChildren, hid, List.modify_id]

theorem appendChildren_appendChild (nodes : List Node) (parent child : Nat) (children : List Nat) :
    appendChildren (appendChild nodes parent child) parent children =
      appendChildren nodes parent (child :: children) := by
  simp only [appendChildren, appendChild, List.modify_modify_eq]
  congr 1
  funext node
  simp

theorem appendChildren_append {nodes : List Node} {parent : Nat} (more : List Node)
    (children : List Nat) (h : parent < nodes.length) :
    appendChildren (nodes ++ more) parent children =
      appendChildren nodes parent children ++ more := by
  have hmore : parent < (nodes ++ more).length := by simp; omega
  rw [appendChildren, appendChildren, List.modify_eq_take_cons_drop h,
    List.modify_eq_take_cons_drop hmore, List.getElem_append_left h,
    List.take_append_of_le_length (Nat.le_of_lt h), List.drop_append_of_le_length h]
  simp

/-- A node that stands last gets its children. -/
theorem appendChildren_last (nodes : List Node) (node : Node) (children : List Nat) :
    appendChildren (nodes ++ [node]) nodes.length children =
      nodes ++ [{ node with children := node.children ++ children }] := by
  rw [appendChildren, List.modify_eq_take_cons_drop (by simp)]
  simp

theorem addChild_eq {tree : Tree} {parent : Nat} (node : Node) (h : parent < tree.size) :
    tree.addChild parent node =
      (.ok tree.size,
        { tree with nodes := appendChild tree.nodes parent tree.size ++ [node] }) := by
  simp only [addChild, if_pos h, appendChild_append _ _ h]

end Tree

namespace Planting

open NestedNode (layout layoutAll positions length_layout)
open ScoringTree.Tree (appendChild appendChildren)

/-- The counter stands at the number of nodes. -/
def Counted (planting : Planting) : Prop := planting.counter = planting.tree.size

/-- A node that is made and added moves the counter and the number of nodes on together. -/
theorem Counted.addChild {planting : Planting} (h : planting.Counted) {content : NodeContent}
    {id : Option String} {parent index : Nat} {grown : Tree}
    (hadd : planting.tree.addChild parent (content.toNode id planting.counter).1 =
      (.ok index, grown)) :
    Counted ⟨grown, (content.toNode id planting.counter).2⟩ := by
  rw [Counted, Tree.addChild_size hadd, ← h]
  rfl

mutual

theorem addNested_counted {planting grown : Planting} {parent : Nat} (hc : planting.Counted) :
    ∀ nested : NestedNode, planting.addNested parent nested = .ok grown → grown.Counted
  | ⟨content, id, children⟩, h => by
    simp only [addNested] at h
    split at h
    · rename_i hadd
      exact addNestedAll_counted (hc.addChild hadd) children h
    · cases h

theorem addNestedAll_counted {planting grown : Planting} {parent : Nat} (hc : planting.Counted) :
    ∀ nested : List NestedNode, planting.addNestedAll parent nested = .ok grown → grown.Counted
  | [], h => by
    simp only [addNestedAll] at h
    cases h
    exact hc
  | n :: ns, h => by
    simp only [addNestedAll] at h
    split at h
    · rename_i hadd
      exact addNestedAll_counted (addNested_counted hc n hadd) ns h
    · cases h

end

mutual

/-- The nested node is laid out behind the nodes that are there, and its parent gets one more
child. -/
theorem addNested_eq {planting : Planting} {parent : Nat} (hc : planting.Counted)
    (h : parent < planting.tree.size) : ∀ nested : NestedNode,
      ∃ counter, planting.addNested parent nested = .ok
        ⟨{ planting.tree with
          nodes := appendChild planting.tree.nodes parent planting.tree.size ++
            layout planting.tree.size nested }, counter⟩
  | ⟨content, id, children⟩ => by
    obtain ⟨tree, counter⟩ := planting
    -- the name of the new node is read off the counter, and that is its position
    have hposition : counter = tree.size := hc
    subst hposition
    have hadd := Tree.addChild_eq (content.toNode id tree.size).1 (show parent < tree.size from h)
    have hsize : (appendChild tree.nodes parent tree.size).length = tree.size := by
      simp [appendChild, Tree.size]
    have hgrown := Tree.addChild_size hadd
    obtain ⟨counter, hall⟩ := addNestedAll_eq (hc.addChild hadd)
      (show tree.size < _ by rw [hgrown]; omega) children
    refine ⟨counter, ?_⟩
    -- the new node stands last until its children are laid out behind it
    have hchildren := Tree.appendChildren_last (appendChild tree.nodes parent tree.size)
      (content.toNode id tree.size).1 (positions (tree.size + 1) children)
    rw [hsize] at hchildren
    simp only [addNested, hadd]
    rw [hall, hgrown, hchildren]
    simp [layout, NodeContent.toNode]

theorem addNestedAll_eq {planting : Planting} {parent : Nat} (hc : planting.Counted)
    (h : parent < planting.tree.size) : ∀ nested : List NestedNode,
      ∃ counter, planting.addNestedAll parent nested = .ok
        ⟨{ planting.tree with
          nodes := appendChildren planting.tree.nodes parent
              (positions planting.tree.size nested) ++
            layoutAll planting.tree.size nested }, counter⟩
  | [] => ⟨planting.counter, by
      simp [addNestedAll, positions, layoutAll, Tree.appendChildren_nil]⟩
  | n :: ns => by
    obtain ⟨tree, start⟩ := planting
    obtain ⟨counter, hfirst⟩ := addNested_eq hc h n
    have hlength : (appendChild tree.nodes parent tree.size).length = tree.size := by
      simp [appendChild, Tree.size]
    have hgrown : (appendChild tree.nodes parent tree.size ++ layout tree.size n).length =
        tree.size + n.size := by
      rw [List.length_append, hlength, length_layout]
    obtain ⟨last, hothers⟩ := addNestedAll_eq (addNested_counted hc n hfirst)
      (show parent < _ by rw [Tree.size, hgrown]; exact Nat.lt_add_right _ h) ns
    refine ⟨last, ?_⟩
    simp only [addNestedAll, hfirst, hothers]
    simp only [Tree.size] at hlength hgrown h ⊢
    rw [hgrown, Tree.appendChildren_append _ _ (by omega), Tree.appendChildren_appendChild]
    simp [positions, layoutAll]

end

end Planting

namespace Document

/-- The nested nodes of a document in depth-first order. -/
def nestedNodes (document : Document) : List NestedNode :=
  match document.root with
  | some root => root.preorder
  | none => []

/-- The tree of a document is the layout of its root node. -/
theorem toTree_eq_layout (document : Document) :
    document.toTree =
      .ok { document.settings with nodes := document.root.elim [] (NestedNode.layout 0) } := by
  cases hroot : document.root with
  | none => simp [toTree, hroot]
  | some root =>
    obtain ⟨content, id, children⟩ := root
    have hcounted : Planting.Counted
        ⟨{ document.settings with nodes := [(content.toNode id 0).1] }, 1⟩ := rfl
    obtain ⟨counter, hall⟩ :=
      Planting.addNestedAll_eq hcounted (show 0 < Tree.size _ by simp [Tree.size]) children
    simp only [toTree, hroot, Tree.addRoot, List.isEmpty_nil, if_true, List.nil_append]
    rw [show (content.toNode id 0).2 = 1 from rfl, hall]
    simp [Tree.appendChildren, Tree.size, NodeContent.toNode, NestedNode.layout]

end Document

/-! ## Reading back -/

namespace Tree

open NestedNode (layout layoutAll positions numberedFrom numberedAll preorderAll)

/-- The nested node at a position, read through the children; none where a position has no node.
The first argument bounds the depth. -/
def nestedAt? (tree : Tree) : Nat → Nat → Option NestedNode
  | 0, _ => none
  | fuel + 1, index =>
    match tree.node? index with
    | none => none
    | some node =>
      (node.children.mapM (nestedAt? tree fuel)).map fun children =>
        ⟨node.toNodeContent, some node.id, children⟩

/-- The nested node that the whole tree stands for. -/
def nested? (tree : Tree) : Option NestedNode := tree.root?.bind (tree.nestedAt? tree.size)

mutual

/-- A layout inside a tree is read back as the nested node it was made from. -/
theorem nestedAt?_layout (tree : Tree) (before after : List Node) (k fuel : Nat)
    (hk : before.length = k) : ∀ nested : NestedNode,
    tree.nodes = before ++ layout k nested ++ after → nested.size ≤ fuel →
      tree.nestedAt? fuel k = some (numberedFrom k nested)
  | ⟨content, id, children⟩, hnodes, hfuel => by
    rw [NestedNode.size_mk] at hfuel
    cases fuel with
    | zero => omega
    | succ fuel =>
      have hnode : tree.node? k = some
          { content with id := id.getD (toString k), children := positions (k + 1) children } := by
        simp [node?, hnodes, layout, hk.symm]
      have hbelow := mapM_nestedAt?_layoutAll tree
        (before ++
          [{ content with id := id.getD (toString k), children := positions (k + 1) children }])
        after (k + 1) fuel (by simp [hk]) children (by simp [hnodes, layout]) (by omega)
      simp [nestedAt?, hnode, hbelow, numberedFrom]

theorem mapM_nestedAt?_layoutAll (tree : Tree) (before after : List Node) (k fuel : Nat)
    (hk : before.length = k) : ∀ nested : List NestedNode,
    tree.nodes = before ++ layoutAll k nested ++ after → (preorderAll nested).length ≤ fuel →
      (positions k nested).mapM (tree.nestedAt? fuel) = some (numberedAll k nested)
  | [], _, _ => rfl
  | n :: ns, hnodes, hfuel => by
    rw [NestedNode.length_preorderAll_cons] at hfuel
    have hfirst := nestedAt?_layout tree before (layoutAll (k + n.size) ns ++ after) k fuel hk n
      (by simp [hnodes, layoutAll]) (by omega)
    have hothers := mapM_nestedAt?_layoutAll tree (before ++ layout k n) after (k + n.size) fuel
      (by simp [hk, NestedNode.length_layout]) ns (by simp [hnodes, layoutAll]) (by omega)
    simp [positions, numberedAll, hfirst, hothers]

end

end Tree

namespace Document

/-- Every document has a tree. Its nodes are the nested nodes of the document in depth-first order,
each with what it holds and a name, which is its position where the document gives none; children
stand behind their parents; and the tree read back through the children is the root node of the
document. Without any name in the document, no two nodes of the tree have the same one. While a tree
is made, the counter that names are taken from stands at the number of its nodes. -/
theorem toTree_lossless (document : Document) :
    ∃ tree, document.toTree = .ok tree ∧ tree.toSettings = document.settings ∧
      tree.nodes.map (fun node => (node.toNodeContent, node.id)) =
        document.nestedNodes.mapIdx (fun k nested =>
          (nested.toNodeContent, nested.id.getD (toString k))) ∧
      (∀ i, ∀ c ∈ tree.childrenAt i, i < c) ∧
      tree.nested? = document.root.map (·.numberedFrom 0) ∧
      ((∀ nested ∈ document.nestedNodes, nested.id = none) → (tree.nodes.map (·.id)).Nodup) ∧
      ∀ (planting grown : Planting) (parent : Nat) (nested : NestedNode),
        planting.counter = planting.tree.size → planting.addNested parent nested = .ok grown →
          grown.counter = grown.tree.size := by
  have htree := document.toTree_eq_layout
  have hentries : (document.root.elim [] (NestedNode.layout 0)).map
      (fun node => (node.toNodeContent, node.id)) =
        document.nestedNodes.mapIdx NestedNode.entry := by
    cases hroot : document.root with
    | none => simp [nestedNodes, hroot]
    | some root => simpa [nestedNodes, hroot] using NestedNode.layout_entries 0 root
  refine ⟨_, htree, rfl, hentries, (toTree_grown htree).proper.behind, ?_, ?_,
    fun _ _ _ nested hcounted => Planting.addNested_counted hcounted nested⟩
  · cases hroot : document.root with
    | none => rfl
    | some root =>
      have hread := Tree.nestedAt?_layout
        { document.settings with nodes := NestedNode.layout 0 root } [] [] 0
        (NestedNode.layout 0 root).length rfl root (by simp)
        (Nat.le_of_eq (NestedNode.length_layout 0 root).symm)
      have hne : NestedNode.layout 0 root ≠ [] := by
        obtain ⟨content, id, children⟩ := root
        simp [NestedNode.layout]
      simpa [Tree.nested?, Tree.root?, Tree.size, hne] using hread
  · intro hnone
    have hnames : (document.root.elim [] (NestedNode.layout 0)).map (·.id) =
        (List.range document.nestedNodes.length).map toString := by
      have := congrArg (List.map Prod.snd) hentries
      rw [List.map_map] at this
      refine (Eq.trans ?_ this).trans ?_
      · rfl
      · refine List.ext_getElem (by simp) fun k hk _ => ?_
        have hk' : k < document.nestedNodes.length := by simpa using hk
        simp [NestedNode.entry, hnone _ (List.getElem_mem hk')]
    rw [hnames]
    exact List.nodup_range.map toString_injective

/-- A root with an inner node and a leaf below it, and two leaves below the inner node. The inner
node has the name that is given, and no other node has one. -/
def forked (name : Option String) : Document :=
  let leaf (score : String) : NestedNode := ⟨⟨some .always, some score, none, [], none⟩, none, []⟩
  let inner : NestedNode :=
    ⟨⟨some .never, none, none, [], none⟩, name, [leaf "first", leaf "second"]⟩
  ⟨[], [], Settings.named "forked",
    some ⟨⟨none, none, none, [], none⟩, none, [inner, leaf "third"]⟩⟩

/-- A name that is given counts like one that is not: the leaves behind it have the same names in
both documents. -/
theorem toTree_lossless_forked :
    (∃ tree, (forked (some "inner")).toTree = .ok tree ∧
        tree.nodes.map (·.id) = ["0", "inner", "2", "3", "4"] ∧
        tree.nested? = (forked (some "inner")).root.map (·.numberedFrom 0)) ∧
      (∀ nested ∈ (forked none).nestedNodes, nested.id = none) ∧
      ∃ tree, (forked none).toTree = .ok tree ∧ (tree.nodes.map (·.id)).Nodup ∧
        tree.nodes.map (·.id) = ["0", "1", "2", "3", "4"] := by
  obtain ⟨tree, htree, -, hnodes, -, hnested, -⟩ := toTree_lossless (forked (some "inner"))
  obtain ⟨tree', htree', -, hnodes', -, -, hnodup, -⟩ := toTree_lossless (forked none)
  have hnone : ∀ nested ∈ (forked none).nestedNodes, nested.id = none := by decide
  have hnames := congrArg (List.map Prod.snd) hnodes
  have hnames' := congrArg (List.map Prod.snd) hnodes'
  rw [List.map_map] at hnames hnames'
  exact ⟨⟨tree, htree, hnames.trans (by decide), hnested⟩, hnone, tree', htree', hnodup hnone,
    hnames'.trans (by decide)⟩

end Document
end ScoringTree
