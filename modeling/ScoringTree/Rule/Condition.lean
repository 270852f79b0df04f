import ScoringTree.Field.Resolution
import ScoringTree.Predicate.Basic
import ScoringTree.Source.Literal
import ScoringTree.Text.Quoted

/-!
# ScoringTree.Rule.Condition

Conditions: predicates whose fields are typed and whose literals are converted.

* `Literal`          — a number, a text or a flag.
* `Condition`        — typed three-valued tests and their combinations.
* `Condition.text`   — as the text of a rule shows it.
* `Condition.source`   — as generated source computes it.
* `Condition.fields` — the fields tested, each once, in the order of first use.
-/

namespace ScoringTree

inductive Literal where
  | number (x : Float)
  | text (s : String)
  | flag (b : Bool)
  deriving DecidableEq, Repr

def flagText (b : Bool) : String := if b then "true" else "false"

namespace Literal

def source : Literal → String
  | .number x => Source.doubleLiteral x
  | .text s => Source.stringLiteral s
  | .flag b => flagText b

def display : Literal → String
  | .number x => Number.floatText .plain x
  | .text s => Text.quoted s
  | .flag b => flagText b

end Literal

inductive Relation where
  | eq
  | ne
  | lt
  | le
  | gt
  | ge
  deriving DecidableEq, Repr

namespace Relation

def symbol : Relation → String
  | .eq => "=="
  | .ne => "!="
  | .lt => "<"
  | .le => "<="
  | .gt => ">"
  | .ge => ">="

/-- The helper of generated source that computes the relation. -/
def helper : Relation → String
  | .eq => "eq"
  | .ne => "ne"
  | .lt => "lt"
  | .le => "le"
  | .gt => "gt"
  | .ge => "ge"

/-- Asks for equality or its opposite, not for an order. -/
def testsEquality : Relation → Bool
  | .eq | .ne => true
  | _ => false

end Relation

namespace Comparison

/-- The relation a comparison asks for; none if it tests presence. -/
def relation? : Comparison → Option Relation
  | .equal => some .eq
  | .notEqual => some .ne
  | .lessThan => some .lt
  | .lessOrEqual => some .le
  | .greaterThan => some .gt
  | .greaterOrEqual => some .ge
  | .isMissing => none
  | .isNotMissing => none

end Comparison

inductive Condition where
  /-- Unknown when the field has no value. -/
  | compare (field : String) (relation : Relation) (type : SourceType) (literal : Literal)
  | missing (field : String)
  | present (field : String)
  /-- Unknown when the field has no value. -/
  | member (field : String) (type : SourceType) (values : List Literal) (negated : Bool)
  | compound (operator : Connective) (operands : List Condition)
  | constant (b : Bool)

namespace SourceType

/-- The helper of generated source that reads a field of this type. -/
def getter : SourceType → String
  | .double => "number"
  | .string => "text"
  | .boolean => "flag"

end SourceType

namespace Condition

/-- A helper call with its arguments. -/
def call (helper : String) (arguments : List String) : String :=
  helper ++ "(" ++ String.intercalate ", " arguments ++ ")"

/-- A helper call on the record. -/
def recordCall (helper field : String) : String :=
  call helper ["requestData", Source.stringLiteral field]

mutual

/-- An expression of generated source with three values, the absent one being unknown. -/
def source : Condition → String
  | .compare field relation type literal =>
    call relation.helper [recordCall type.getter field, literal.source]
  | .missing field => recordCall "isMissing" field
  | .present field => recordCall "isNotMissing" field
  | .member field type values negated =>
    call (if negated then "isNotIn" else "isIn")
      (recordCall type.getter field :: values.map Literal.source)
  | .compound operator operands => call operator.name (sourceAll operands)
  | .constant true => "Boolean.TRUE"
  | .constant false => "Boolean.FALSE"

def sourceAll : List Condition → List String
  | [] => []
  | c :: cs => source c :: sourceAll cs

end

mutual

def text : Condition → String
  | .compare field relation _ literal => field ++ " " ++ relation.symbol ++ " " ++ literal.display
  | .missing field => field ++ " is missing"
  | .present field => field ++ " is not missing"
  | .member field _ values negated =>
    field ++ (if negated then " not in " else " in ") ++ call "" (values.map Literal.display)
  | .compound operator operands => call operator.name (textAll operands)
  | .constant b => flagText b

def textAll : List Condition → List String
  | [] => []
  | c :: cs => text c :: textAll cs

end

mutual

/-- Adds the fields that are tested to those noted before, from left to right. -/
def noteFields (noted : List String) : Condition → List String
  | .compare field _ _ _ => noteName noted field
  | .missing field => noteName noted field
  | .present field => noteName noted field
  | .member field _ _ _ => noteName noted field
  | .compound _ operands => noteFieldsAll noted operands
  | .constant _ => noted

def noteFieldsAll (noted : List String) : List Condition → List String
  | [] => noted
  | c :: cs => noteFieldsAll (noteFields noted c) cs

end

def fields (condition : Condition) : List String := noteFields [] condition

end Condition

end ScoringTree
