import ScoringTree.Model.Tree
import ScoringTree.Scoring.Reading

/-!
# ScoringTree.Scoring.Evaluation

Scoring a record against a tree.

Predicates are three-valued: comparing a missing value is unknown. From the root on, the first
child whose predicate is true is entered. What happens at an unknown predicate, and where no child
matches, is for the strategies of the model to say.

* `Predicate.evaluate`  — the truth of a predicate on a record.
* `Tree.selectChild`    — where to go from a node.
* `Tree.evaluate`       — the prediction for a record; `none` is the null prediction.
-/

namespace ScoringTree

/-- Why a predicate or a node cannot be evaluated. -/
inductive EvaluationFault where
  | notAnObject
  | undeclared (field : String)
  | noLiteral (field : String)
  | notOrdered (field : String)
  | mismatch (field : String) (kind : Scalar.Mismatch) (literal : String)
  | strayDefault (child : String)
  /-- The nodes refer to each other in a circle. -/
  | endless
  deriving DecidableEq, Repr

namespace EvaluationFault

def text : EvaluationFault → String
  | .notAnObject => "record is not a JSON object"
  | .undeclared field => "field '" ++ field ++ "' is not declared"
  | .noLiteral field => "predicate on '" ++ field ++ "' has no value"
  | .notOrdered field => "boolean field '" ++ field ++ "' cannot be ordered"
  | .mismatch field kind literal =>
    "field '" ++ field ++ "' is "
      ++ (match kind with
        | .notNumeric => "numeric"
        | .notBoolean => "boolean")
      ++ " but literal '" ++ literal ++ "' is not"
  | .strayDefault child => "default child '" ++ child ++ "' is not a child"
  | .endless => "node is reached again from itself"

end EvaluationFault

inductive ScoringError where
  | invalid (error : InvalidModel)
  | evaluation (node : String) (fault : EvaluationFault)
  deriving DecidableEq, Repr

namespace ScoringError

def message : ScoringError → String
  | .invalid error => error.message
  | .evaluation node fault => "evaluation error at node '" ++ node ++ "': " ++ fault.text

end ScoringError

/-! ## Predicates -/

namespace Predicate

/-- The truth of a comparison with a value that is there. -/
def compareValue (type : FieldType) (field : String) (operator : Comparison)
    (literal : Option String) (value : Json) : Except EvaluationFault Truth :=
  if operator.testsPresence then .ok (.ofBool (operator == .isNotMissing))
  else
    match literal with
    | none => .error (.noLiteral field)
    | some literal =>
      match Scalar.ofJson? type value with
      | none => .ok .unknown
      | some actual =>
        if actual.isFlag && !operator.testsEquality then .error (.notOrdered field)
        else
          match actual.order? literal with
          | .ok order => .ok (.ofBool (operator.holds order))
          | .error kind => .error (.mismatch field kind literal)

/-- The truth of a comparison with a value that is missing. -/
def compareMissing : Comparison → Truth
  | .isMissing => .true
  | .isNotMissing => .false
  | _ => .unknown

/-- Whether the value equals one of the literals; stops at the first that it equals. -/
def member (field : String) (actual : Scalar) : List String → Except EvaluationFault Bool
  | [] => .ok false
  | literal :: rest =>
    match actual.order? literal with
    | .error kind => .error (.mismatch field kind literal)
    | .ok (some .eq) => .ok true
    | .ok _ => member field actual rest

mutual

/-- The truth of a predicate. All operands of a compound are evaluated, so the first fault among
them is reported whatever the truth of the others. -/
def evaluate (types : FieldTypes) (record : Record) : Predicate → Except EvaluationFault Truth
  | .always => .ok .true
  | .never => .ok .false
  | .simple field operator literal =>
    match types.get? field with
    | none => .error (.undeclared field)
    | some type =>
      match record.value? field with
      | none => .ok (compareMissing operator)
      | some value => compareValue type field operator literal value
  | .set field operator literals =>
    match types.get? field with
    | none => .error (.undeclared field)
    | some type =>
      match (record.value? field).bind (Scalar.ofJson? type) with
      | none => .ok .unknown
      | some actual =>
        match member field actual literals with
        | .ok found => .ok (operator.truth found)
        | .error fault => .error fault
  | .compound operator operands =>
    match evaluateAll types record operands with
    | .ok truths => .ok (operator.combine truths)
    | .error fault => .error fault

def evaluateAll (types : FieldTypes) (record : Record) :
    List Predicate → Except EvaluationFault (List Truth)
  | [] => .ok []
  | p :: ps =>
    match evaluate types record p with
    | .error fault => .error fault
    | .ok t =>
      match evaluateAll types record ps with
      | .ok ts => .ok (t :: ts)
      | .error fault => .error fault

end

end Predicate

/-! ## Trees -/

structure Prediction where
  nodeId : String
  score : Option String
  confidences : List (String × Float)
  deriving DecidableEq, Repr

namespace Node

def prediction (node : Node) : Prediction :=
  { nodeId := node.id, score := node.score, confidences := node.confidences }

/-- A node without a score has no prediction of its own to fall back on. -/
def lastPrediction? (node : Node) : Option Prediction :=
  if node.score.isSome then some node.prediction else none

/-- The truth of the guard of a node; a node without a guard is always entered. -/
def enter (types : FieldTypes) (record : Record) (node : Node) : Except ScoringError Truth :=
  match node.predicate with
  | none => .ok .true
  | some p =>
    match p.evaluate types record with
    | .ok t => .ok t
    | .error fault => .error (.evaluation node.id fault)

end Node

/-- Where to go from an inner node. -/
inductive Step where
  | descend (child : Nat)
  | nullPrediction
  | lastPrediction
  | noMatch
  deriving DecidableEq, Repr

namespace Tree

/-- The position among `children` of the node of that name. -/
def childNamed? (tree : Tree) (children : List Nat) (id : String) : Option Nat :=
  children.find? fun c => (tree.node? c).any (·.id == id)

/-- What an unknown predicate leads to at `node`; `none` is to go on with the next child. -/
def onUnknown (tree : Tree) (node : Node) : Except ScoringError (Option Step) :=
  match tree.onMissing with
  | .nullPrediction => .ok (some .nullPrediction)
  | .lastPrediction => .ok (some .lastPrediction)
  | .none | .defaultChild =>
    match node.defaultChild with
    | none => .ok none
    | some id =>
      match tree.childNamed? node.children id with
      | some child => .ok (some (.descend child))
      | none => .error (.evaluation node.id (.strayDefault id))

/-- The step from `node`, given those of its children that are still to be tried. -/
def selectChild (tree : Tree) (types : FieldTypes) (record : Record) (node : Node) :
    List Nat → Except ScoringError Step
  | [] => .ok .noMatch
  | child :: rest =>
    match tree.node? child with
    | none => selectChild tree types record node rest
    | some target =>
      match target.enter types record with
      | .error e => .error e
      | .ok .true => .ok (.descend child)
      | .ok .false => selectChild tree types record node rest
      | .ok .unknown =>
        match tree.onUnknown node with
        | .error e => .error e
        | .ok (some step) => .ok step
        | .ok none => selectChild tree types record node rest

/-- The prediction from a node on; the first argument bounds the number of nodes passed. -/
def evaluateFrom (tree : Tree) (types : FieldTypes) (record : Record) :
    Nat → Node → Except ScoringError (Option Prediction)
  | 0, node => .error (.evaluation node.id .endless)
  | fuel + 1, node =>
    if node.isLeaf then .ok (some node.prediction)
    else
      match tree.selectChild types record node node.children with
      | .error e => .error e
      | .ok (.descend child) =>
        match tree.node? child with
        | some next => evaluateFrom tree types record fuel next
        | none => .ok none
      | .ok .nullPrediction => .ok none
      | .ok .lastPrediction => .ok node.lastPrediction?
      | .ok .noMatch =>
        match tree.onNoMatch with
        | .returnNullPrediction => .ok none
        | .returnLastPrediction => .ok node.lastPrediction?

/-- The prediction for the members of a JSON object. -/
def evaluateRecord (tree : Tree) (types : FieldTypes) (record : Record) :
    Except ScoringError (Option Prediction) :=
  match tree.nodes with
  | [] => .error (.invalid ⟨tree.modelName, .noNodes⟩)
  | root :: _ =>
    match root.enter types record with
    | .error e => .error e
    | .ok .true => tree.evaluateFrom types record tree.size root
    | .ok _ => .ok none

/-- The prediction for a JSON value, which has to be an object. -/
def evaluate (tree : Tree) (types : FieldTypes) (record : Json) :
    Except ScoringError (Option Prediction) :=
  match record with
  | .object members => tree.evaluateRecord types members
  | _ => .error (.evaluation "" .notAnObject)

end Tree

end ScoringTree
