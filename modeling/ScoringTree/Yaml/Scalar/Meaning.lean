import ScoringTree.Datum
import ScoringTree.Number.Reading

/-!
# ScoringTree.Yaml.Scalar.Meaning

What plain scalars mean where any value may stand.

* `isNull`, `flag?`  — the words for no value and for the two truth values.
* `Numeral`          — whole numbers: those a value can hold, those it cannot, and no number.
* `float?`           — decimal numbers, infinities and the one that is no number.
* `plainDatum?`      — the meaning of a plain scalar.
-/

namespace ScoringTree
namespace Yaml

def isNull (text : String) : Bool := ["null", "Null", "NULL", "~"].contains text

def flag? (text : String) : Option Bool :=
  if ["true", "True", "TRUE"].contains text then some true
  else if ["false", "False", "FALSE"].contains text then some false
  else none

/-- A zero with more digits behind it is text, not a number. -/
def hasLeadingZero (cs : List Char) : Bool :=
  let cs :=
    match cs with
    | '-' :: rest => rest
    | '+' :: rest => rest
    | _ => cs
  match cs with
  | '0' :: d :: rest => (d :: rest).all Char.isDigit
  | _ => false

/-- The value of a digit in a base up to sixteen. -/
def digitValue? (base : Nat) (c : Char) : Option Nat :=
  let value :=
    if c.isDigit then some (c.toNat - 48)
    else if 'a' ≤ c ∧ c ≤ 'f' then some (c.toNat - 87)
    else if 'A' ≤ c ∧ c ≤ 'F' then some (c.toNat - 55)
    else none
  value.filter (· < base)

/-- The number that digits write, at least one. -/
def digits? (base : Nat) (cs : List Char) : Option Nat :=
  if cs.isEmpty then none
  else cs.foldlM (fun n c => (digitValue? base c).map (n * base + ·)) 0

/-- Digits behind the letter of a base, or decimal digits. -/
def magnitude? : List Char → Option Nat
  | '0' :: 'x' :: cs => digits? 16 cs
  | '0' :: 'o' :: cs => digits? 8 cs
  | '0' :: 'b' :: cs => digits? 2 cs
  | cs => if hasLeadingZero cs then none else digits? 10 cs

/-- A whole number with its sign. -/
def integer? (text : String) : Option Int :=
  match text.toList with
  | '-' :: cs => (magnitude? cs).map fun n => -(n : Int)
  | '+' :: cs => (magnitude? cs).map Int.ofNat
  | cs => (magnitude? cs).map Int.ofNat

/-- What a whole number is good for. -/
inductive Numeral where
  /-- Within 64 bits. -/
  | held (z : Int)
  /-- Within 128 bits: a number, but not one that a value can hold. -/
  | beyond
  | none
  deriving DecidableEq, Repr

namespace Numeral

def ofText (text : String) : Numeral :=
  match integer? text with
  | .none => .none
  | some z =>
    if -(Number.twoPow 63 : Int) ≤ z ∧ z < (Number.twoPow 64 : Int) then .held z
    else if -(Number.twoPow 127 : Int) ≤ z ∧ z < (Number.twoPow 128 : Int) then .beyond
    else .none

end Numeral

def infinity : Float := 1.0 / 0.0

def notANumber : Float := 0.0 / 0.0

/-- The number without a plus sign; two signs are refused. -/
def withoutPlus? (cs : List Char) : Option (List Char) :=
  match cs with
  | '+' :: '+' :: _ => none
  | '+' :: '-' :: _ => none
  | '+' :: rest => some rest
  | _ => some cs

/-- A decimal number that is not too large, or one of the special words. -/
def float? (text : String) : Option Float :=
  match withoutPlus? text.toList with
  | none => none
  | some cs =>
    let unsigned := String.ofList cs
    if [".inf", ".Inf", ".INF"].contains unsigned then some infinity
    else if ["-.inf", "-.Inf", "-.INF"].contains text then some (-infinity)
    else if [".nan", ".NaN", ".NAN"].contains text then some notANumber
    else (Number.readFloat unsigned).filter Number.isFinite

/-- The meaning of a plain scalar; none for a number that no value can hold. -/
def plainDatum? (text : String) : Option Datum :=
  if text.isEmpty || isNull text then some .null
  else
    match flag? text with
    | some b => some (.bool b)
    | none =>
      match Numeral.ofText text with
      | .held z => some (.number (.integer z))
      | .beyond => none
      | .none =>
        match if hasLeadingZero text.toList then none else float? text with
        | some x => some (.number (.float x))
        | none => some (.text text)

end Yaml
end ScoringTree
