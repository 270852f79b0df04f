import ScoringTree.Rule.Derivation
import ScoringTree.Source.Sources
import ScoringTree.Source.Unit

/-!
# ScoringTree.Compilation

Models compiled to source: fields are resolved, rules derived, the skeleton bound, the unit laid
out. The first stage that fails is the one that is reported.

* `Request`      — a tree with its fields and extra constraints.
* `Request.compile`
                 — the sources of the model.
* `CompileError` — what a stage failed with.
-/

namespace ScoringTree

inductive CompileError where
  | invalid (error : InvalidModel)
  | resolution (error : ResolutionError)
  | derivation (error : DerivationError)
  | binding (error : Source.BindingError)
  | noRules (model : String)
  deriving DecidableEq, Repr

namespace CompileError

def message : CompileError → String
  | .invalid e => e.message
  | .resolution e => e.message
  | .derivation e => e.message
  | .binding e => e.message
  | .noRules model => "model '" ++ model ++ "' produced no rules to emit"

end CompileError

/-- How units are made. -/
structure CompileOptions where
  package : String
  skeleton : Source.Skeleton

namespace CompileOptions

def defaultPackage : String := "org.treeforge.generated"

def standard : CompileOptions := ⟨defaultPackage, .standard⟩

end CompileOptions

structure CompiledModel where
  name : String
  sources : Sources
  deriving DecidableEq, Repr

namespace CompiledModel

def hash (model : CompiledModel) : String := model.sources.fingerprint

end CompiledModel

/-- A tree with the two outer layers of its fields, and what every record has to satisfy. -/
structure Request where
  data : List DataField
  derived : List DerivedField
  tree : Tree
  constraints : List Predicate

namespace Request

def ofDocument (document : Document) (constraints : List Predicate) :
    Except CompileError Request :=
  match document.toTree with
  | .ok tree => .ok ⟨document.dataDictionary, document.transformations, tree, constraints⟩
  | .error e => .error (.invalid e)

def dictionaries (request : Request) : Dictionaries :=
  ⟨request.data, request.derived, request.tree.locals⟩

/-- The rules of the tree over its resolved fields. -/
def rules (request : Request) : Except CompileError RuleSet := do
  let table ← request.dictionaries.resolve.mapError .resolution
  (request.tree.derive table request.constraints).mapError .derivation

def unit (request : Request) (options : CompileOptions) : Except CompileError ScoringUnit := do
  let rules ← request.rules
  let frame ← (options.skeleton.bind (.ofTree request.tree)).mapError .binding
  match rules.unit? frame options.package with
  | some unit => .ok unit
  | none => .error (.noRules rules.modelName)

def compile (request : Request) (options : CompileOptions) :
    Except CompileError CompiledModel := do
  let unit ← request.unit options
  .ok ⟨request.tree.modelName, Sources.empty.insert unit.qualifiedName unit.text⟩

end Request

namespace Document

def compile (document : Document) (options : CompileOptions) :
    Except CompileError CompiledModel := do
  let request ← Request.ofDocument document []
  request.compile options

end Document

end ScoringTree
