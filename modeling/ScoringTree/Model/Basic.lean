import ScoringTree.Field.Dictionary
import ScoringTree.Predicate.Basic

/-!
# ScoringTree.Model.Basic

The vocabulary of a tree model.

* `Distribution`        — how many training records of a node carry a label.
* `NodeContent`         — what a node holds, its name and its children apart.
* `MiningFunction`, `FieldUsage`, `MissingValueStrategy`, `NoTrueChildStrategy`
                        — the choices a model makes, with the words of documents.
* `Settings`            — what a model declares beside its nodes.
-/

namespace ScoringTree

structure Distribution where
  label : String
  recordCount : Float
  /-- Given instead of being computed from counts. -/
  confidence : Option Float
  deriving DecidableEq, Repr

structure NodeContent where
  /-- Guards the way into the node. -/
  predicate : Option Predicate
  score : Option String
  recordCount : Option Float
  distributions : List Distribution
  /-- The child to take when a predicate is unknown. -/
  defaultChild : Option String

namespace NodeContent

/-- The count of a node's records: its own if given, else the sum over the labels. -/
def total (content : NodeContent) : Float :=
  match content.recordCount with
  | some n => n
  | none => (content.distributions.map (·.recordCount)).foldl (· + ·) 0.0

/-- The share of each label. A given confidence wins; without records every share is zero. -/
def confidences (content : NodeContent) : List (String × Float) :=
  content.distributions.map fun d =>
    (d.label,
      match d.confidence with
      | some c => c
      | none => if content.total > 0.0 then d.recordCount / content.total else 0.0)

end NodeContent

/-- What a model predicts: a label or a number. -/
inductive MiningFunction where
  | classification
  | regression
  deriving DecidableEq, Repr

namespace MiningFunction

def name : MiningFunction → String
  | .classification => "classification"
  | .regression => "regression"

def options : List (String × MiningFunction) :=
  [.classification, .regression].map fun f => (f.name, f)

end MiningFunction

/-- The role of a field in a model. -/
inductive FieldUsage where
  | active
  | target
  | predicted
  | supplementary
  deriving DecidableEq, Repr

namespace FieldUsage

def name : FieldUsage → String
  | .active => "active"
  | .target => "target"
  | .predicted => "predicted"
  | .supplementary => "supplementary"

def options : List (String × FieldUsage) :=
  [.active, .target, .predicted, .supplementary].map fun u => (u.name, u)

/-- The field is what the model predicts. -/
def isTarget : FieldUsage → Bool
  | .target | .predicted => true
  | _ => false

end FieldUsage

structure MiningField where
  name : String
  usage : FieldUsage
  deriving DecidableEq, Repr

/-- What to do when the predicate of a child is unknown. -/
inductive MissingValueStrategy where
  /-- Take the default child if there is one, else go on to the next child. -/
  | none
  | defaultChild
  /-- Stop without a prediction. -/
  | nullPrediction
  /-- Stop with the prediction of the parent. -/
  | lastPrediction
  deriving DecidableEq, Repr

namespace MissingValueStrategy

def name : MissingValueStrategy → String
  | .none => "none"
  | .defaultChild => "defaultChild"
  | .nullPrediction => "nullPrediction"
  | .lastPrediction => "lastPrediction"

def options : List (String × MissingValueStrategy) :=
  [.none, .defaultChild, .nullPrediction, .lastPrediction].map fun s => (s.name, s)

end MissingValueStrategy

/-- What to do when no child matches. -/
inductive NoTrueChildStrategy where
  | returnNullPrediction
  | returnLastPrediction
  deriving DecidableEq, Repr

namespace NoTrueChildStrategy

def name : NoTrueChildStrategy → String
  | .returnNullPrediction => "returnNullPrediction"
  | .returnLastPrediction => "returnLastPrediction"

def options : List (String × NoTrueChildStrategy) :=
  [.returnNullPrediction, .returnLastPrediction].map fun s => (s.name, s)

end NoTrueChildStrategy

/-- What a model declares beside its nodes. -/
structure Settings where
  modelName : String
  algorithm : Option String
  function : MiningFunction
  schema : List MiningField
  locals : List DerivedField
  onMissing : MissingValueStrategy
  onNoMatch : NoTrueChildStrategy

namespace Settings

/-- The settings of a model of which only the name is known. -/
def named (modelName : String) : Settings :=
  { modelName, algorithm := none, function := .classification, schema := [], locals := [],
    onMissing := .none, onNoMatch := .returnNullPrediction }

/-- The field the model predicts: the first one with that role. -/
def targetField? (settings : Settings) : Option String :=
  (settings.schema.find? (·.usage.isTarget)).map (·.name)

end Settings

end ScoringTree
