import ScoringTree.Datum

/-!
# ScoringTree.Field.Expression

Expressions that define derived fields. They are carried along and never computed; what matters
is which fields they read.

* `noteName`           — names gathered in the order of first use.
* `Expression.fields`  — the fields read, each once, in the order of first use.
* `Expression.toJson`  — the document form.
-/

namespace ScoringTree

/-- Adds a name at the end, unless it is there already. -/
def noteName (names : List String) (name : String) : List String :=
  if names.contains name then names else names ++ [name]

inductive Expression where
  | field (name : String)
  | constant (value : Json)
  | apply (function : String) (arguments : List Expression)

namespace Expression

mutual

/-- Adds the fields that are read to those noted before, from left to right. -/
def noteFields (noted : List String) : Expression → List String
  | .field name => noteName noted name
  | .constant _ => noted
  | .apply _ arguments => noteFieldsAll noted arguments

def noteFieldsAll (noted : List String) : List Expression → List String
  | [] => noted
  | e :: es => noteFieldsAll (noteFields noted e) es

end

def fields (e : Expression) : List String := noteFields [] e

mutual

def toJson : Expression → Json
  | .field name => .object [("field", .string name)]
  | .constant value => .object [("constant", value)]
  | .apply function arguments =>
    .object [("apply", .string function), ("arguments", .array (toJsonAll arguments))]

def toJsonAll : List Expression → List Json
  | [] => []
  | e :: es => toJson e :: toJsonAll es

end

end Expression

end ScoringTree
