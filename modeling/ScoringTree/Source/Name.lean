/-!
# ScoringTree.Source.Name

Names in generated source.

* `avoidClash`  — a name with as many `Model` suffixes as it takes to differ from those taken.
* `className`   — the class for a model: its words run together, each with a capital.
* `fragment`    — a node name made fit for an identifier.
* `ruleName`    — the name of the rule for a path of nodes.
-/

namespace ScoringTree
namespace Source

/-- Names that generated source declares or uses without qualification. -/
def reservedNames : List String :=
  ["Arrays", "Boolean", "Collections", "Double", "LinkedHashMap", "Map", "Number",
    "NumberFormatException", "Object", "Outcome", "String", "TreeScoringUnit"]

/-- Appends the suffix while the name is taken, at most as often as the first argument says. -/
def suffixWhileTaken (taken : List String) : Nat → String → String
  | 0, name => name
  | fuel + 1, name =>
    if taken.contains name then suffixWhileTaken taken fuel (name ++ "Model") else name

/-- Every suffix makes a new name, so the taken ones run out after as many steps as there are. -/
def avoidClash (name : String) (taken : List String) : String :=
  suffixWhileTaken taken taken.length name

def isWordChar (c : Char) : Bool := c.isAlphanum

/-- The words of a text run together, each with a capital; `atStart` tells that the next
character begins a word. -/
def runTogether (atStart : Bool) : List Char → List Char
  | [] => []
  | c :: cs =>
    if isWordChar c then (if atStart then c.toUpper else c) :: runTogether false cs
    else runTogether true cs

/-- The words of a model name run together. A name without words is replaced, and one that starts
with a digit gets a word in front. -/
def baseClassName (modelName : String) : String :=
  let name := runTogether true modelName.toList
  match name with
  | [] => "TreeModel"
  | c :: _ => if c.isDigit then String.ofList ("Tree".toList ++ name) else String.ofList name

def className (modelName : String) : String :=
  avoidClash (baseClassName modelName) reservedNames

/-- Characters that no identifier may hold become underscores. -/
def fragment (id : String) : String :=
  String.ofList (id.toList.map fun c => if isWordChar c || c == '_' then c else '_')

def ruleName (ids : List String) : String :=
  String.join (ids.map fun id => "_" ++ fragment id)

end Source
end ScoringTree
