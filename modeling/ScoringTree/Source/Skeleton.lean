import ScoringTree.Model.Tree
import ScoringTree.Source.Literal
import ScoringTree.Source.Name

/-!
# ScoringTree.Source.Skeleton

The class that generated units start from. Its constructor is where a model enters: the call of
the superclass constructor and two assignments are filled in with what is known of the model.

* `Value`, `Statement`  — what a constructor may hold.
* `Skeleton`            — imports, class, superclass and constructor.
* `Skeleton.bind`       — the skeleton filled in for a model, or what it lacks.
-/

namespace ScoringTree
namespace Source

inductive Value where
  | text (s : String)
  | null
  | name (s : String)
  | texts (items : List String)
  deriving DecidableEq, Repr

namespace Value

def print : Value → String
  | .text s => stringLiteral s
  | .null => "null"
  | .name s => s
  | .texts [] => "Collections.emptyList()"
  | .texts items => "Arrays.asList(" ++ String.intercalate ", " (items.map stringLiteral) ++ ")"

/-- A text that may be absent. -/
def ofOption : Option String → Value
  | none => .null
  | some s => .text s

end Value

inductive Statement where
  /-- A call of the superclass constructor. -/
  | superCall (arguments : List Value)
  | assign (target : String) (value : Value)
  deriving DecidableEq, Repr

namespace Statement

def print : Statement → String
  | .superCall arguments => "super(" ++ String.intercalate ", " (arguments.map Value.print) ++ ");"
  | .assign target value => target ++ " = " ++ value.print ++ ";"

end Statement

structure Constructor where
  name : String
  body : List Statement
  deriving DecidableEq, Repr

/-- What a skeleton lacks; the constructor is named. -/
inductive BindingError where
  | noSuperCall (constructor : String)
  | noAssignment (constructor target : String)
  deriving DecidableEq, Repr

namespace BindingError

def message : BindingError → String
  | .noSuperCall name => "template error: constructor of '" ++ name ++ "' has no super invocation"
  | .noAssignment name target =>
    "template error: constructor of '" ++ name ++ "' never assigns '" ++ target ++ "'"

end BindingError

/-- What a unit is told of its model. -/
structure Metadata where
  modelName : String
  /-- The fields that the model itself derives. -/
  contributing : List String
  algorithm : Option String
  target : Option String
  deriving DecidableEq, Repr

namespace Metadata

def ofTree (tree : Tree) : Metadata :=
  { modelName := tree.modelName, contributing := tree.locals.map (·.name),
    algorithm := tree.algorithm, target := tree.targetField? }

end Metadata

namespace Constructor

def print (constructor : Constructor) : String :=
  "public " ++ constructor.name ++ "() \x7b\n" ++
    String.join (constructor.body.map fun s => "    " ++ s.print ++ "\n") ++ "\x7d"

/-- The arguments of the first superclass call replaced. -/
def replaceSuperCall (arguments : List Value) : List Statement → Option (List Statement)
  | [] => none
  | .superCall _ :: rest => some (.superCall arguments :: rest)
  | statement :: rest => (replaceSuperCall arguments rest).map (statement :: ·)

/-- The value of the first assignment to `target` replaced. -/
def replaceAssignment (target : String) (value : Value) :
    List Statement → Option (List Statement)
  | [] => none
  | .assign t v :: rest =>
    if t = target then some (.assign t value :: rest)
    else (replaceAssignment target value rest).map (.assign t v :: ·)
  | statement :: rest => (replaceAssignment target value rest).map (statement :: ·)

/-- Renames the constructor and lets it pass the metadata on to the superclass. -/
def setSuperCall (constructor : Constructor) (metadata : Metadata) (name : String) :
    Except BindingError Constructor :=
  let arguments : List Value :=
    [.text metadata.modelName, .texts metadata.contributing, .ofOption metadata.algorithm]
  match replaceSuperCall arguments constructor.body with
  | some body => .ok ⟨name, body⟩
  | none => .error (.noSuperCall constructor.name)

def setAssignment (constructor : Constructor) (target : String) (value : Value) :
    Except BindingError Constructor :=
  match replaceAssignment target value constructor.body with
  | some body => .ok ⟨constructor.name, body⟩
  | none => .error (.noAssignment constructor.name target)

end Constructor

structure Skeleton where
  imports : List String
  className : String
  superclass : Option String
  constructor : Constructor
  deriving DecidableEq, Repr

namespace Skeleton

def targetAttribute : String := "targetField"

def kindAttribute : String := "pmmlMODEL"

/-- The skeleton of tree models. -/
def standard : Skeleton :=
  { imports := ["java.util.Arrays", "java.util.Collections", "java.util.LinkedHashMap",
      "java.util.Map", "org.treeforge.runtime.TreeScoringUnit"],
    className := "TreeModelTemplate",
    superclass := some "TreeScoringUnit",
    constructor :=
      { name := "TreeModelTemplate",
        body := [.superCall [.name "name", .texts [], .name "algorithmName"],
          .assign targetAttribute (.name targetAttribute), .assign kindAttribute .null] } }

/-- What stands behind the last dot. -/
def lastSegment (qualified : String) : String :=
  String.ofList (qualified.toList.reverse.takeWhile (· != '.')).reverse

/-- The simple names that a unit takes from elsewhere. -/
def importedNames (skeleton : Skeleton) : List String :=
  skeleton.imports.map lastSegment ++ skeleton.superclass.toList

/-- The skeleton filled in. The class is named for the model, and differs from all imported ones. -/
def bind (skeleton : Skeleton) (metadata : Metadata) : Except BindingError Skeleton := do
  let name := avoidClash (Source.className metadata.modelName) skeleton.importedNames
  let constructor ← skeleton.constructor.setSuperCall metadata name
  let constructor ← constructor.setAssignment targetAttribute (.ofOption metadata.target)
  let constructor ← constructor.setAssignment kindAttribute .null
  .ok { skeleton with className := name, constructor }

end Skeleton

end Source
end ScoringTree
