import ScoringTree.Field.Expression
import ScoringTree.Truth

/-!
# ScoringTree.Predicate.Basic

The tests that guard the nodes of a tree.

* `Comparison`         — the operator of a test of one field against one literal.
* `Membership`         — the operator of a test against a list of literals.
* `Predicate`          — tests, their compounds, and the two constants.
* `Predicate.fields`   — the fields tested, each once, in the order of first use.
* `Predicate.toJson`   — the document form.
-/

namespace ScoringTree

inductive Comparison where
  | equal
  | notEqual
  | lessThan
  | lessOrEqual
  | greaterThan
  | greaterOrEqual
  | isMissing
  | isNotMissing
  deriving DecidableEq, Repr

namespace Comparison

/-- The word documents use. -/
def name : Comparison → String
  | .equal => "equal"
  | .notEqual => "notEqual"
  | .lessThan => "lessThan"
  | .lessOrEqual => "lessOrEqual"
  | .greaterThan => "greaterThan"
  | .greaterOrEqual => "greaterOrEqual"
  | .isMissing => "isMissing"
  | .isNotMissing => "isNotMissing"

/-- The word with a capital, as messages spell it. -/
def title : Comparison → String
  | .equal => "Equal"
  | .notEqual => "NotEqual"
  | .lessThan => "LessThan"
  | .lessOrEqual => "LessOrEqual"
  | .greaterThan => "GreaterThan"
  | .greaterOrEqual => "GreaterOrEqual"
  | .isMissing => "IsMissing"
  | .isNotMissing => "IsNotMissing"

def ordered : List Comparison :=
  [.equal, .notEqual, .lessThan, .lessOrEqual, .greaterThan, .greaterOrEqual, .isMissing,
    .isNotMissing]

/-- Tests whether there is a value instead of comparing it. -/
def testsPresence : Comparison → Bool
  | .isMissing | .isNotMissing => true
  | _ => false

/-- Asks for equality or its opposite, not for an order. -/
def testsEquality : Comparison → Bool
  | .equal | .notEqual => true
  | _ => false

/-- Whether the comparison holds of the order between a value and a literal; no order means
that one of them is not a number. -/
def holds : Comparison → Option Ordering → Bool
  | .equal, order => order == some .eq
  | .notEqual, order => order != some .eq
  | .lessThan, order => order == some .lt
  | .lessOrEqual, order => order == some .lt || order == some .eq
  | .greaterThan, order => order == some .gt
  | .greaterOrEqual, order => order == some .gt || order == some .eq
  | .isMissing, _ => false
  | .isNotMissing, _ => true

end Comparison

inductive Membership where
  | isIn
  | isNotIn
  deriving DecidableEq, Repr

namespace Membership

def name : Membership → String
  | .isIn => "isIn"
  | .isNotIn => "isNotIn"

def ordered : List Membership := [.isIn, .isNotIn]

/-- The truth of the test, given whether the value was found. -/
def truth : Membership → Bool → Truth
  | .isIn, found => .ofBool found
  | .isNotIn, found => .ofBool !found

end Membership

inductive Predicate where
  /-- One field against a literal; tests for presence have none. -/
  | simple (field : String) (operator : Comparison) (value : Option String)
  /-- One field against a list of literals. -/
  | set (field : String) (operator : Membership) (values : List String)
  | compound (operator : Connective) (operands : List Predicate)
  | always
  | never

namespace Predicate

mutual

/-- Adds the fields that are tested to those noted before, from left to right. -/
def noteFields (noted : List String) : Predicate → List String
  | .simple field _ _ => noteName noted field
  | .set field _ _ => noteName noted field
  | .compound _ operands => noteFieldsAll noted operands
  | .always => noted
  | .never => noted

def noteFieldsAll (noted : List String) : List Predicate → List String
  | [] => noted
  | p :: ps => noteFieldsAll (noteFields noted p) ps

end

def fields (p : Predicate) : List String := noteFields [] p

mutual

def toJson : Predicate → Json
  | .simple field operator value =>
    .object [("simple", .object (
      [("field", .string field), ("operator", .string operator.name)]
        ++ match value with
          | some literal => [("value", .string literal)]
          | none => []))]
  | .set field operator values =>
    .object [("simple_set", .object
      [("field", .string field), ("operator", .string operator.name),
        ("values", .array (values.map .string))])]
  | .compound operator operands =>
    .object [("compound", .object
      [("operator", .string operator.name), ("predicates", .array (toJsonAll operands))])]
  | .always => .string "true"
  | .never => .string "false"

def toJsonAll : List Predicate → List Json
  | [] => []
  | p :: ps => toJson p :: toJsonAll ps

end

end Predicate

end ScoringTree
