import ScoringTree.Yaml.Token

/-!
# ScoringTree.Yaml.Node

What YAML text denotes: scalars, sequences and mappings, and aliases of nodes that carry an anchor.

Anchors are numbered. A new anchor gets the number of names known so far, and an alias stands for
the last node in the text with the number of its name.

* `Node`         — the tree of a document.
* `Node.marked`  — the nodes with an anchor, in the order of the text.
-/

namespace ScoringTree
namespace Yaml

/-- What stands in front of a node. -/
structure Properties where
  /-- The number of the anchor. -/
  anchor : Option Nat
  tag : Option Tag
  deriving DecidableEq, Repr

namespace Properties

def none : Properties := ⟨.none, .none⟩

end Properties

inductive Node where
  | scalar (properties : Properties) (style : Style) (text : String)
  | sequence (properties : Properties) (items : List Node)
  | mapping (properties : Properties) (entries : List (Node × Node))
  | alias (number : Nat)

namespace Node

/-- The node that is left out. -/
def empty : Node := .scalar .none .plain ""

def properties : Node → Properties
  | .scalar properties _ _ => properties
  | .sequence properties _ => properties
  | .mapping properties _ => properties
  | .alias _ => .none

/-- The node, if it carries an anchor. -/
def mark (node : Node) : List (Nat × Node) :=
  match node.properties.anchor with
  | some number => [(number, node)]
  | none => []

mutual

/-- The nodes with an anchor, with its number. -/
def marked : Node → List (Nat × Node)
  | .scalar properties style text => mark (.scalar properties style text)
  | .sequence properties items => mark (.sequence properties items) ++ markedItems items
  | .mapping properties entries => mark (.mapping properties entries) ++ markedEntries entries
  | .alias _ => []

def markedItems : List Node → List (Nat × Node)
  | [] => []
  | n :: ns => marked n ++ markedItems ns

def markedEntries : List (Node × Node) → List (Nat × Node)
  | [] => []
  | (k, v) :: rest => marked k ++ marked v ++ markedEntries rest

end

mutual

/-- How many marks it takes to write the node: one for a leaf, one for each end of a
collection. -/
def size : Node → Nat
  | .scalar _ _ _ => 1
  | .sequence _ items => itemsSize items + 2
  | .mapping _ entries => entriesSize entries + 2
  | .alias _ => 1

def itemsSize : List Node → Nat
  | [] => 0
  | n :: ns => size n + itemsSize ns

def entriesSize : List (Node × Node) → Nat
  | [] => 0
  | (k, v) :: rest => size k + size v + entriesSize rest

end

end Node

end Yaml
end ScoringTree
