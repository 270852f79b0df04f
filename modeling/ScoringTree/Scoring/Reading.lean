import ScoringTree.Field.DataType
import ScoringTree.Json.Value
import ScoringTree.Number.Reading

/-!
# ScoringTree.Scoring.Reading

Values of records read as the type of their field, and compared with literals.

* `Record`           — the members of a JSON object.
* `Record.value?`    — the value of a field; `null` counts as none.
* `Scalar`           — a number, a text or a flag.
* `Scalar.ofJson?`   — a value read as a type; none if it has no reading of that type.
* `Scalar.order?`    — the order between a value and a literal.
-/

namespace ScoringTree

/-- The members of a JSON object, sorted by key. -/
abbrev Record := List (String × Json)

namespace Record

/-- The value of a field; `null` counts as none. -/
def value? (record : Record) (field : String) : Option Json :=
  match record.lookup field with
  | some .null => none
  | v => v

end Record

/-- A flag is one of two words in any case, with blanks around it ignored. -/
def readFlag (s : String) : Option Bool :=
  let word := Number.asciiLower (Text.trimChars s.toList)
  if word == "true".toList then some true
  else if word == "false".toList then some false
  else none

/-- The order of two floats, if both are numbers. -/
def floatOrder? (x y : Float) : Option Ordering :=
  if x < y then some .lt
  else if x == y then some .eq
  else if y < x then some .gt
  else none

/-- False comes before true. -/
def flagOrder (a b : Bool) : Ordering := compare a.toNat b.toNat

inductive Scalar where
  | number (x : Float)
  | text (s : String)
  | flag (b : Bool)
  deriving DecidableEq, Repr

namespace Scalar

def isFlag : Scalar → Bool
  | .flag _ => true
  | _ => false

def ofJson? : FieldType → Json → Option Scalar
  | .numeric, .number n => some (.number n.toFloat)
  | .numeric, .string s => (Number.readTrimmed s).map .number
  | .numeric, _ => none
  | .categorical, v => some (.text v.asText)
  | .text, v => some (.text v.asText)
  | .boolean, .bool b => some (.flag b)
  | .boolean, .string s => (readFlag s).map .flag
  | .boolean, _ => none

/-- The literal is not of the kind that the value is. -/
inductive Mismatch where
  | notNumeric
  | notBoolean
  deriving DecidableEq, Repr

/-- The order between a value and a literal read like it; no order if one is not a number. -/
def order? (actual : Scalar) (literal : String) : Except Mismatch (Option Ordering) :=
  match actual with
  | .number x =>
    match Number.readTrimmed literal with
    | some y => .ok (floatOrder? x y)
    | none => .error .notNumeric
  | .text s => .ok (some (compare s literal))
  | .flag b =>
    match readFlag literal with
    | some c => .ok (some (flagOrder b c))
    | none => .error .notBoolean

end Scalar

end ScoringTree
