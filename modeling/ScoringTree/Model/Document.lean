import ScoringTree.Field.Reading
import ScoringTree.Json.Reader
import ScoringTree.Model.Basic
import ScoringTree.Predicate.Reading

/-!
# ScoringTree.Model.Document

Model documents: the two global dictionaries and a tree model whose nodes are nested the way they
are written.

* `NestedNode`           — a node with its children inside it.
* `Document`             — the whole document.
* `Document.read?`       — a document read from any readable tree.
* `Document.ofJson?`     — a document read from JSON text.
* `Document.toJson`      — the document as JSON, entries in the order of declaration.
-/

namespace ScoringTree

structure NestedNode extends NodeContent where
  /-- Nodes without a name are numbered. -/
  id : Option String
  children : List NestedNode

structure Document where
  dataDictionary : List DataField
  transformations : List DerivedField
  settings : Settings
  root : Option NestedNode

namespace Document

def name (document : Document) : String := document.settings.modelName

def dictionaries (document : Document) : Dictionaries :=
  { data := document.dataDictionary, derived := document.transformations,
    locals := document.settings.locals }

end Document

/-! ## Reading -/

open Readable

section Reading

variable {ν : Type} {m : Type → Type} [Monad m] [Fallible m] [Readable ν m]

/-- The predicate a value of a document stands for. -/
def Predicate.ofValue? (v : ν) : m Predicate := do
  Fallible.ofOption (Predicate.read? (← datum? v))

def Distribution.read? (v : ν) : m Distribution := do
  match ← slots? ["value", "record_count", "confidence"] v with
  | [label, count, confidence] =>
    let label ← required anyText label
    let recordCount ← required float? count
    let confidence ← optional float? confidence
    return { label, recordCount, confidence }
  | _ => Fallible.fail

def MiningField.read? (v : ν) : m MiningField := do
  match ← slots? ["name", "usage_type"] v with
  | [name, usage] =>
    let name ← required text? name
    let usage ← defaulted .active (choice FieldUsage.options) usage
    return { name, usage }
  | _ => Fallible.fail

/-- Reads a node that nests at most as deep as the first argument. -/
def NestedNode.readWithin : Nat → ν → m NestedNode
  | 0, _ => Fallible.fail
  | depth + 1, v => do
    match ← slots? ["id", "predicate", "score", "record_count", "score_distributions",
        "default_child", "nodes"] v with
    | [id, predicate, score, count, distributions, defaultChild, nodes] =>
      let id ← optional anyText id
      let predicate ← optional Predicate.ofValue? predicate
      let score ← optional anyText score
      let recordCount ← optional float? count
      let distributions ← defaulted [] (list Distribution.read?) distributions
      let defaultChild ← optional anyText defaultChild
      let children ← defaulted [] (list (NestedNode.readWithin depth)) nodes
      return { id, predicate, score, recordCount, distributions, defaultChild, children }
    | _ => Fallible.fail

/-- No document nests deeper than this. -/
def documentDepth : Nat := 128

/-- The settings of a model and its root node. -/
def Settings.read? (v : ν) : m (Settings × Option NestedNode) := do
  match ← slots? ["model_name", "algorithm_name", "function_name", "mining_schema",
      "local_transformations", "missing_value_strategy", "no_true_child_strategy", "node"] v with
  | [name, algorithm, function, schema, locals, onMissing, onNoMatch, node] =>
    let modelName ← required text? name
    let algorithm ← optional text? algorithm
    let function ← defaulted .classification (choice MiningFunction.options) function
    let schema ← defaulted [] (list MiningField.read?) schema
    let locals ← defaulted [] (list DerivedField.read?) locals
    let onMissing ← defaulted .none (choice MissingValueStrategy.options) onMissing
    let onNoMatch ←
      defaulted .returnNullPrediction (choice NoTrueChildStrategy.options) onNoMatch
    let root ← optional (NestedNode.readWithin documentDepth) node
    return ({ modelName, algorithm, function, schema, locals, onMissing, onNoMatch }, root)
  | _ => Fallible.fail

def Document.read? (v : ν) : m Document := do
  match ← slots? ["data_dictionary", "transformation_dictionary", "tree_model"] v with
  | [data, derived, model] =>
    let dataDictionary ← defaulted [] (list DataField.read?) data
    let transformations ← defaulted [] (list DerivedField.read?) derived
    let (settings, root) ← required Settings.read? model
    return { dataDictionary, transformations, settings, root }
  | _ => Fallible.fail

end Reading

def Document.ofJson? (text : String) : Option Document :=
  (Json.read text).bind Document.read?

/-! ## Writing -/

def Json.ofFloat (x : Float) : Json := .number (.float x)

def Json.ofFloat? (x : Option Float) : Json :=
  match x with
  | some y => .ofFloat y
  | none => .null

def Distribution.toJson (d : Distribution) : Json :=
  .object [("value", .string d.label), ("record_count", .ofFloat d.recordCount),
    ("confidence", .ofFloat? d.confidence)]

def MiningField.toJson (field : MiningField) : Json :=
  .object [("name", .string field.name), ("usage_type", .string field.usage.name)]

namespace NestedNode

/-- The entries of a node other than its children. -/
def contentMembers (id : Option String) (content : NodeContent) : List (String × Json) :=
  [("id", .ofOption id),
    ("predicate",
      match content.predicate with
      | some p => p.toJson
      | none => .null),
    ("score", .ofOption content.score),
    ("record_count", .ofFloat? content.recordCount),
    ("score_distributions", .array (content.distributions.map Distribution.toJson)),
    ("default_child", .ofOption content.defaultChild)]

mutual

def toJson : NestedNode → Json
  | ⟨content, id, children⟩ =>
    .object (contentMembers id content ++ [("nodes", .array (toJsonAll children))])

def toJsonAll : List NestedNode → List Json
  | [] => []
  | n :: ns => toJson n :: toJsonAll ns

end

end NestedNode

def Settings.members (settings : Settings) : List (String × Json) :=
  [("model_name", .string settings.modelName),
    ("algorithm_name", .ofOption settings.algorithm),
    ("function_name", .string settings.function.name),
    ("mining_schema", .array (settings.schema.map MiningField.toJson)),
    ("local_transformations", .array (settings.locals.map DerivedField.toJson)),
    ("missing_value_strategy", .string settings.onMissing.name),
    ("no_true_child_strategy", .string settings.onNoMatch.name)]

def Document.toJson (document : Document) : Json :=
  .object [("data_dictionary", .array (document.dataDictionary.map DataField.toJson)),
    ("transformation_dictionary", .array (document.transformations.map DerivedField.toJson)),
    ("tree_model", .object (document.settings.members
      ++ [("node",
        match document.root with
        | some node => node.toJson
        | none => .null)]))]

end ScoringTree
