import ScoringTree.Rule.RuleSet
import ScoringTree.Scoring.Evaluation
import ScoringTree.Source.Name

/-!
# ScoringTree.Rule.Derivation

Rules derived from a tree.

The tree is walked depth first. At every node the predicate is typed against the table of fields,
then the default child is looked up, and a leaf has to have a score; the first fault on the walk is
reported with the names of the nodes on the way to it.

* `Predicate.typed`  — the condition of a predicate, or why it has none.
* `Walk`             — the state of the walk: what was found, and the way to where it is.
* `Tree.visit`       — the walk through a node and all below it.
* `Tree.derive`      — the rule set of a tree under extra constraints.
-/

namespace ScoringTree

/-- Why a predicate has no condition. -/
inductive PredicateFault where
  | undefinedField
  | notOrdered (operator : Comparison)
  | noLiteral (operator : Comparison)
  | notNumber (literal : String)
  | notBoolean (literal : String)
  deriving DecidableEq, Repr

namespace PredicateFault

def text : PredicateFault → String
  | .undefinedField => "field is not defined"
  | .notOrdered operator => "operator " ++ operator.title ++ " cannot order a boolean field"
  | .noLiteral operator => "operator " ++ operator.title ++ " needs a value"
  | .notNumber literal => "'" ++ literal ++ "' is not a number"
  | .notBoolean literal => "'" ++ literal ++ "' is not a boolean"

end PredicateFault

/-- What is wrong with the shape of a model. -/
inductive MalformedFault where
  | noNodes
  | repeatedId (id : String)
  | emptyCompound (path : String)
  | strayDefault (child path : String)
  | unscoredLeaf (path : String)
  /-- The nodes refer to each other in a circle, or to nodes that are not there. -/
  | endless (path : String)
  deriving DecidableEq, Repr

namespace MalformedFault

def text : MalformedFault → String
  | .noNodes => "tree has no nodes"
  | .repeatedId id => "node id '" ++ id ++ "' is used more than once"
  | .emptyCompound path => "compound predicate at node " ++ path ++ " has no operands"
  | .strayDefault child path =>
    "default child '" ++ child ++ "' of node " ++ path ++ " is not one of its children"
  | .unscoredLeaf path => "leaf node " ++ path ++ " has no score"
  | .endless path => "node " ++ path ++ " has no end"

end MalformedFault

inductive DerivationError where
  | predicate (field path : String) (fault : PredicateFault)
  | malformed (model : String) (fault : MalformedFault)
  deriving DecidableEq, Repr

namespace DerivationError

def message : DerivationError → String
  | .predicate field path fault =>
    "invalid predicate on field '" ++ field ++ "' at node " ++ path ++ ": " ++ fault.text
  | .malformed model fault => "malformed model '" ++ model ++ "': " ++ fault.text

end DerivationError

/-! ## Conditions of predicates -/

namespace Literal

/-- A literal converted to the type of its field. Numbers have to be finite. -/
def ofText (type : SourceType) (raw : String) : Except PredicateFault Literal :=
  match type with
  | .double =>
    match Number.readTrimmed raw with
    | some x => if Number.isFinite x then .ok (.number x) else .error (.notNumber raw)
    | none => .error (.notNumber raw)
  | .boolean =>
    match readFlag raw with
    | some b => .ok (.flag b)
    | none => .error (.notBoolean raw)
  | .string => .ok (.text raw)

def ofTexts (type : SourceType) : List String → Except PredicateFault (List Literal)
  | [] => .ok []
  | raw :: rest =>
    match ofText type raw with
    | .error fault => .error fault
    | .ok literal =>
      match ofTexts type rest with
      | .error fault => .error fault
      | .ok literals => .ok (literal :: literals)

end Literal

namespace Predicate

/-- Why a predicate cannot be typed, and at which field; without one, a compound is empty. -/
inductive TypingError where
  | field (name : String) (fault : PredicateFault)
  | emptyCompound
  deriving DecidableEq, Repr

/-- The condition of a comparison with a field of known type. -/
def typedSimple (type : SourceType) (field : String) (operator : Comparison)
    (value : Option String) : Except PredicateFault Condition :=
  match operator.relation? with
  | none => .ok (if operator = .isMissing then .missing field else .present field)
  | some relation =>
    if type = .boolean ∧ !relation.testsEquality then .error (.notOrdered operator)
    else
      match value with
      | none => .error (.noLiteral operator)
      | some raw =>
        match Literal.ofText type raw with
        | .ok literal => .ok (.compare field relation type literal)
        | .error fault => .error fault

mutual

/-- The condition of a predicate; faults are found from left to right. -/
def typed (table : FieldTable) : Predicate → Except TypingError Condition
  | .always => .ok (.constant true)
  | .never => .ok (.constant false)
  | .simple field operator value =>
    match table.get? field with
    | none => .error (.field field .undefinedField)
    | some resolved =>
      match typedSimple resolved.sourceType field operator value with
      | .ok condition => .ok condition
      | .error fault => .error (.field field fault)
  | .set field operator values =>
    match table.get? field with
    | none => .error (.field field .undefinedField)
    | some resolved =>
      match Literal.ofTexts resolved.sourceType values with
      | .ok literals =>
        .ok (.member field resolved.sourceType literals (operator == .isNotIn))
      | .error fault => .error (.field field fault)
  | .compound _ [] => .error .emptyCompound
  | .compound operator (p :: ps) =>
    match typed table p with
    | .error e => .error e
    | .ok c =>
      match typedAll table ps with
      | .error e => .error e
      | .ok cs => .ok (.compound operator (c :: cs))

def typedAll (table : FieldTable) : List Predicate → Except TypingError (List Condition)
  | [] => .ok []
  | p :: ps =>
    match typed table p with
    | .error e => .error e
    | .ok c =>
      match typedAll table ps with
      | .error e => .error e
      | .ok cs => .ok (c :: cs)

end

/-- The condition of a predicate, with the model and the node named in the error. -/
def typedAt (table : FieldTable) (model path : String) (p : Predicate) :
    Except DerivationError Condition :=
  match p.typed table with
  | .ok condition => .ok condition
  | .error (.field field fault) => .error (.predicate field path fault)
  | .error .emptyCompound => .error (.malformed model (.emptyCompound path))

end Predicate

/-! ## The walk -/

/-- A node on the way from the root, with its condition. -/
structure Waypoint where
  node : Nat
  nodeId : String
  condition : Option Condition

namespace Tree

/-- The first name that an earlier node has already. -/
def repeatedId? (seen : List String) : List Node → Option String
  | [] => none
  | node :: rest =>
    if seen.contains node.id then some node.id else repeatedId? (node.id :: seen) rest

/-- The score as a literal: in a regression a finite number is one, all else is text. -/
def scoreLiteral (function : MiningFunction) (score : String) : Literal :=
  match function with
  | .classification => .text score
  | .regression =>
    match Number.readTrimmed score with
    | some x => if Number.isFinite x then .number x else .text score
    | none => .text score

def outcome? (tree : Tree) (index : Nat) (node : Node) : Option Outcome :=
  node.score.map fun score =>
    { node := index, nodeId := node.id, score := scoreLiteral tree.function score,
      confidences := node.confidences }

/-- The names of the nodes on the way, parted by slashes. -/
def pathText (way : List Waypoint) (id : String) : String :=
  String.intercalate "/" (way.map (·.nodeId) ++ [id])

/-- The branch of one node, reached by `way`. -/
def branchAt (tree : Tree) (table : FieldTable) (way : List Waypoint) (index : Nat) (node : Node) :
    Except DerivationError Branch := do
  let path := pathText way node.id
  let condition ←
    match node.predicate with
    | none => Except.ok none
    | some p => (p.typedAt table tree.modelName path).map some
  let defaultChild ←
    match node.defaultChild with
    | none => Except.ok none
    | some id =>
      match tree.childNamed? node.children id with
      | some child => Except.ok (some child)
      | none => Except.error (.malformed tree.modelName (.strayDefault id path))
  .ok { node := index, nodeId := node.id, condition, outcome := tree.outcome? index node,
        children := node.children, defaultChild }

/-- The rule of a leaf that `way` leads to, the leaf included. -/
def ruleOf (way : List Waypoint) (guards : List Condition) (outcome : Outcome) : Rule :=
  { name := Source.ruleName (way.map (·.nodeId)), path := way.map (·.node),
    premises := way.filterMap fun w => w.condition.map fun c => ⟨w.node, w.nodeId, c⟩,
    guards, outcome }

end Tree

/-- The state of a walk: the branches and rules found so far, and the way from the root to the node
that the walk is at. -/
structure Walk where
  branches : List Branch
  rules : List Rule
  way : List Waypoint

namespace Walk

def start : Walk := ⟨[], [], []⟩

/-- Goes on to a node, with its branch found. -/
def enter (walk : Walk) (index : Nat) (node : Node) (branch : Branch) : Walk :=
  { walk with
    branches := walk.branches ++ [branch],
    way := walk.way ++ [⟨index, node.id, branch.condition⟩] }

/-- Finds the rule of the leaf that the walk is at. -/
def conclude (walk : Walk) (guards : List Condition) (outcome : Outcome) : Walk :=
  { walk with rules := walk.rules ++ [Tree.ruleOf walk.way guards outcome] }

/-- Goes back from the node that the walk is at. -/
def leave (walk : Walk) : Walk := { walk with way := walk.way.dropLast }

end Walk

namespace Tree

mutual

/-- The walk through one node and all below it. The first argument bounds the length of the way. -/
def visit (tree : Tree) (table : FieldTable) (guards : List Condition) :
    Nat → Walk → Nat → Except DerivationError Walk
  | 0, walk, _ => .error (.malformed tree.modelName (.endless (pathText walk.way "")))
  | fuel + 1, walk, index =>
    match tree.node? index with
    | none => .error (.malformed tree.modelName (.endless (pathText walk.way "")))
    | some node =>
      match tree.branchAt table walk.way index node with
      | .error e => .error e
      | .ok branch =>
        if node.isLeaf then
          match branch.outcome with
          | none =>
            .error (.malformed tree.modelName (.unscoredLeaf (pathText walk.way node.id)))
          | some outcome => .ok ((walk.enter index node branch).conclude guards outcome).leave
        else
          match visitAll tree table guards fuel (walk.enter index node branch) node.children with
          | .error e => .error e
          | .ok below => .ok below.leave

def visitAll (tree : Tree) (table : FieldTable) (guards : List Condition) :
    Nat → Walk → List Nat → Except DerivationError Walk
  | _, walk, [] => .ok walk
  | fuel, walk, index :: rest =>
    match visit tree table guards fuel walk index with
    | .error e => .error e
    | .ok next => visitAll tree table guards fuel next rest

end

/-- The conditions of extra constraints. -/
def typedGuards (tree : Tree) (table : FieldTable) :
    List Predicate → Except DerivationError (List Condition)
  | [] => .ok []
  | p :: ps =>
    match p.typedAt table tree.modelName "guard" with
    | .error e => .error e
    | .ok c =>
      match typedGuards tree table ps with
      | .error e => .error e
      | .ok cs => .ok (c :: cs)

/-- The rule set of a tree. Emptiness is found first, then a repeated name, then faults of the
constraints, then those of the nodes. -/
def derive (tree : Tree) (table : FieldTable) (constraints : List Predicate) :
    Except DerivationError RuleSet :=
  if tree.nodes.isEmpty then .error (.malformed tree.modelName .noNodes)
  else
    match repeatedId? [] tree.nodes with
    | some id => .error (.malformed tree.modelName (.repeatedId id))
    | none =>
      match tree.typedGuards table constraints with
      | .error e => .error e
      | .ok guards =>
        match tree.visit table guards tree.size .start 0 with
        | .error e => .error e
        | .ok walk =>
          .ok { modelName := tree.modelName, rules := walk.rules,
                branches := walk.branches.mergeSort fun a b => a.node ≤ b.node,
                guards, onMissing := tree.onMissing, onNoMatch := tree.onNoMatch }

end Tree

end ScoringTree
