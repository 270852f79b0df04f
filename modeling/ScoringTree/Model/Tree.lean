import ScoringTree.Model.Document

/-!
# ScoringTree.Model.Tree

Tree models as a list of nodes that refer to their children by position. The root is the first
node, and children stand in the order in which they were declared.

* `Node`, `Tree`       — a node with its children, and the model.
* `Tree.addRoot`, `Tree.addChild`
                       — the two ways a tree grows; each gives the outcome and the tree after it.
* `Planting`           — a tree in the making, with a counter of the nodes made for it.
* `Document.toTree`    — the tree of a document: its nodes in depth-first order, each before its
                         children; a node without a name gets the counter as name.
-/

namespace ScoringTree

structure Node extends NodeContent where
  id : String
  children : List Nat

namespace Node

/-- A node of which only the name is known. -/
def named (id : String) : Node :=
  { id, predicate := none, score := none, recordCount := none, distributions := [],
    defaultChild := none, children := [] }

def isLeaf (node : Node) : Bool := node.children.isEmpty

end Node

structure Tree extends Settings where
  nodes : List Node

/-- What makes a model invalid. -/
inductive ModelFault where
  | rootPresent (id : String)
  | noParent (index : Nat)
  | noNodes
  | badType (field : String) (unknown : UnknownType)
  deriving DecidableEq, Repr

/-- A model with its fault. -/
structure InvalidModel where
  model : String
  fault : ModelFault
  deriving DecidableEq, Repr

namespace InvalidModel

def message (error : InvalidModel) : String :=
  "invalid model '" ++ error.model ++ "': " ++
    match error.fault with
    | .rootPresent id => "root already set, cannot add '" ++ id ++ "' as root"
    | .noParent index => "parent index " ++ toString index ++ " does not exist"
    | .noNodes => "tree has no nodes"
    | .badType field unknown => "field '" ++ field ++ "': " ++ unknown.message

end InvalidModel

namespace Tree

/-- A model without nodes. -/
def named (modelName : String) : Tree := { Settings.named modelName with nodes := [] }

def size (tree : Tree) : Nat := tree.nodes.length

def node? (tree : Tree) (index : Nat) : Option Node := tree.nodes[index]?

def root? (tree : Tree) : Option Nat := if tree.nodes.isEmpty then none else some 0

/-- The first node of that name. -/
def find? (tree : Tree) (id : String) : Option Nat := tree.nodes.findIdx? (·.id == id)

def leafCount (tree : Tree) : Nat := tree.nodes.countP Node.isLeaf

/-- Adds the first node; gives its position, and the tree after the call. -/
def addRoot (tree : Tree) (node : Node) : Except InvalidModel Nat × Tree :=
  if tree.nodes.isEmpty then (.ok 0, { tree with nodes := tree.nodes ++ [node] })
  else (.error ⟨tree.modelName, .rootPresent node.id⟩, tree)

/-- The node at a position gets one more child, after those it has. -/
def appendChild (nodes : List Node) (parent child : Nat) : List Node :=
  nodes.modify parent fun node => { node with children := node.children ++ [child] }

/-- Adds a node as the last child of `parent`; gives its position, and the tree after the call. -/
def addChild (tree : Tree) (parent : Nat) (node : Node) : Except InvalidModel Nat × Tree :=
  if parent < tree.size then
    (.ok tree.size, { tree with nodes := appendChild (tree.nodes ++ [node]) parent tree.size })
  else (.error ⟨tree.modelName, .noParent parent⟩, tree)

end Tree

/-- The node that a nested node becomes, and the counter after it. A node without a name takes the
counter as name. -/
def NodeContent.toNode (content : NodeContent) (id : Option String) (counter : Nat) : Node × Nat :=
  ({ content with id := id.getD (toString counter), children := [] }, counter + 1)

/-- A tree in the making, and how many nodes were made for it so far. -/
structure Planting where
  tree : Tree
  counter : Nat

namespace Planting

mutual

/-- Adds a nested node and all below it as the last child of `parent`. -/
def addNested (planting : Planting) (parent : Nat) : NestedNode → Except InvalidModel Planting
  | ⟨content, id, children⟩ =>
    let (node, counter) := content.toNode id planting.counter
    match planting.tree.addChild parent node with
    | (.ok index, grown) => addNestedAll ⟨grown, counter⟩ index children
    | (.error e, _) => .error e

def addNestedAll (planting : Planting) (parent : Nat) :
    List NestedNode → Except InvalidModel Planting
  | [] => .ok planting
  | n :: ns =>
    match addNested planting parent n with
    | .ok grown => addNestedAll grown parent ns
    | .error e => .error e

end

end Planting

namespace Document

def toTree (document : Document) : Except InvalidModel Tree :=
  let tree : Tree := { document.settings with nodes := [] }
  match document.root with
  | none => .ok tree
  | some root =>
    let (node, counter) := root.toNode root.id 0
    match tree.addRoot node with
    | (.ok index, grown) =>
      match Planting.addNestedAll ⟨grown, counter⟩ index root.children with
      | .ok planted => .ok planted.tree
      | .error e => .error e
    | (.error e, _) => .error e

end Document

/-- The types of the fields of three layers, with the model named in the error. -/
def Dictionaries.typesFor (layers : Dictionaries) (model : String) :
    Except InvalidModel FieldTypes :=
  match layers.fieldTypes with
  | .ok types => .ok types
  | .error (field, unknown) => .error ⟨model, .badType field unknown⟩

namespace Document

def fieldTypes (document : Document) : Except InvalidModel FieldTypes :=
  document.dictionaries.typesFor document.name

end Document

end ScoringTree
