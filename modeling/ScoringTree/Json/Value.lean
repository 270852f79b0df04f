import ScoringTree.Number.Layout
import ScoringTree.Text.Hex

/-!
# ScoringTree.Json.Value

JSON values and their compact text.

* `Quantity`     — a number as JSON tells it apart: an integer of at most 64 bits, or a float.
* `Json`         — a value; the members of an object stand in the order they are written.
* `Json.insert`  — a member put into a list of members sorted by key.
* `Json.render`  — the compact text of a value.
-/

namespace ScoringTree

inductive Quantity where
  | integer (z : Int)
  | float (x : Float)
  deriving DecidableEq, Repr

namespace Quantity

def toFloat : Quantity → Float
  | .integer z => Number.ofRatio (decide (z < 0)) z.natAbs 1
  | .float x => x

end Quantity

inductive Json where
  | null
  | bool (b : Bool)
  | number (n : Quantity)
  | string (s : String)
  | array (items : List Json)
  | object (members : List (String × Json))

namespace Json

/-- Puts a member where the order of keys wants it; a key that is there already gets the new
value. -/
def insert (key : String) (value : Json) : List (String × Json) → List (String × Json)
  | [] => [(key, value)]
  | (k, v) :: rest =>
    match compare key k with
    | .lt => (key, value) :: (k, v) :: rest
    | .eq => (key, value) :: rest
    | .gt => (k, v) :: insert key value rest

/-! ## Text -/

def escapeChar (c : Char) : List Char :=
  if c == '"' then ['\\', '"']
  else if c == '\\' then ['\\', '\\']
  else if c == '\x08' then ['\\', 'b']
  else if c == '\x0c' then ['\\', 'f']
  else if c == '\n' then ['\\', 'n']
  else if c == '\r' then ['\\', 'r']
  else if c == '\t' then ['\\', 't']
  else if c.toNat < 0x20 then ['\\', 'u'] ++ Text.hexPadded 4 c.toNat
  else [c]

def stringChars (s : String) : List Char :=
  '"' :: (s.toList.flatMap escapeChar ++ ['"'])

def integerChars (z : Int) : List Char :=
  if z < 0 then '-' :: Number.decimalText z.natAbs else Number.decimalText z.natAbs

def quantityChars : Quantity → List Char
  | .integer z => integerChars z
  | .float x => Number.floatChars .json x

mutual

def chars : Json → List Char
  | .null => ['n', 'u', 'l', 'l']
  | .bool true => ['t', 'r', 'u', 'e']
  | .bool false => ['f', 'a', 'l', 's', 'e']
  | .number n => quantityChars n
  | .string s => stringChars s
  | .array items => '[' :: (itemsChars items ++ [']'])
  | .object members => '\x7b' :: (membersChars members ++ ['\x7d'])

/-- The items of an array, a comma between two of them. -/
def itemsChars : List Json → List Char
  | [] => []
  | [item] => chars item
  | item :: rest => chars item ++ ',' :: itemsChars rest

/-- The members of an object, a comma between two of them. -/
def membersChars : List (String × Json) → List Char
  | [] => []
  | [(key, value)] => stringChars key ++ ':' :: chars value
  | (key, value) :: rest => stringChars key ++ ':' :: (chars value ++ ',' :: membersChars rest)

end

/-- The compact text of a value. -/
def render (value : Json) : String := String.ofList (chars value)

/-- The text a value stands for where any value is taken as text: a string as it is, all else as
its JSON text. -/
def asText : Json → String
  | .string s => s
  | value => value.render

/-- An integer value, for counts and positions. -/
def nat (n : Nat) : Json := .number (.integer n)

def ofOption (value : Option String) : Json :=
  match value with
  | some s => .string s
  | none => .null

end Json

end ScoringTree
