import ScoringTree.Model.Tree
import ScoringTree.Rule.Condition

/-!
# ScoringTree.Rule.RuleSet

What a tree comes to: a branch for every node, and a rule for every way from the root to a leaf.

* `Outcome`   — the result of stopping at a node.
* `Branch`    — a node with its typed condition, its outcome and its children.
* `Rule`      — the conditions on the way to a leaf, and the outcome there.
* `RuleSet`   — the branches and rules of a model, with its guards and strategies.
-/

namespace ScoringTree

structure Outcome where
  node : Nat
  nodeId : String
  score : Literal
  confidences : List (String × Float)
  deriving DecidableEq, Repr

structure Branch where
  node : Nat
  nodeId : String
  /-- Without a condition the branch is always entered. -/
  condition : Option Condition
  outcome : Option Outcome
  children : List Nat
  /-- The child to take when the condition of a child is unknown. -/
  defaultChild : Option Nat

namespace Branch

def isLeaf (branch : Branch) : Bool := branch.children.isEmpty

end Branch

/-- The condition of one node on the way to a leaf. -/
structure Premise where
  node : Nat
  nodeId : String
  condition : Condition

structure Rule where
  name : String
  /-- The nodes from the root to the leaf. -/
  path : List Nat
  /-- The conditions on the path, that of the root first. -/
  premises : List Premise
  guards : List Condition
  outcome : Outcome

namespace Rule

/-- Guards and premises, then the score. -/
def text (rule : Rule) : String :=
  let terms := rule.guards.map Condition.text ++ rule.premises.map fun p => p.condition.text
  let condition := if terms.isEmpty then "true" else String.intercalate " && " terms
  rule.name ++ ": " ++ condition ++ " -> " ++ rule.outcome.score.display

end Rule

structure RuleSet where
  modelName : String
  /-- One rule for each leaf, depth first in the order of declaration. -/
  rules : List Rule
  /-- One branch for each node, in the order of nodes. -/
  branches : List Branch
  /-- What every record has to satisfy. -/
  guards : List Condition
  onMissing : MissingValueStrategy
  onNoMatch : NoTrueChildStrategy

namespace RuleSet

def branch? (ruleSet : RuleSet) (node : Nat) : Option Branch := ruleSet.branches[node]?

end RuleSet

end ScoringTree
