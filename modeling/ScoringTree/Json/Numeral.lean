import ScoringTree.Json.Value
import ScoringTree.Number.Reading

/-!
# ScoringTree.Json.Numeral

Numerals of JSON text and the numbers they stand for.

An integer that fits 64 bits stays an integer, except that `-0` is the negative zero. Any other
numeral becomes a float in two steps: the leading digits that fit an unsigned 64-bit integer are
taken as they are, the digits after them only count as powers of ten, and the result is scaled by
one power of ten. A numeral that is too large for a float has no number.
-/

namespace ScoringTree
namespace Json

structure Numeral where
  negative : Bool
  whole : List Char
  fraction : List Char
  exponent : Option (Bool × List Char)
  deriving DecidableEq, Repr

namespace Numeral

/-- Digits are added to `acc` while the sum stays within `limit`; also gives how many were. -/
def accumulate (limit : Nat) (acc : Nat) : List Char → Nat × Nat
  | [] => (acc, 0)
  | c :: cs =>
    let next := 10 * acc + (c.toNat - '0'.toNat)
    if limit < next then (acc, 0)
    else
      let rest := accumulate limit next cs
      (rest.1, rest.2 + 1)

/-- The float nearest to a power of ten. -/
def powerOfTen (n : Nat) : Float := Number.ofDecimal false 1 n

/-- `f * 10 ^ e` by one multiplication or division; far below zero by repeated division. -/
def scale : Nat → Float → Int → Option Float
  | 0, f, _ => some f
  | fuel + 1, f, e =>
    if e.natAbs ≤ 308 then
      if 0 ≤ e then
        let g := f * powerOfTen e.natAbs
        if Number.isFinite g then some g else none
      else some (f / powerOfTen e.natAbs)
    else if f == 0.0 then some f
    else if 0 ≤ e then none
    else scale fuel (f / powerOfTen 308) (e + 308)

/-- The float of a significand and a power of ten, with its sign. -/
def scaled (negative : Bool) (significand : Nat) (e : Int) : Option Float :=
  (scale 4 (Number.ofNat significand) e).map fun f => if negative then -f else f

/-- The greatest unsigned integer of 64 bits. -/
def wordLimit : Nat := Number.twoPow 64 - 1

/-- The greatest exponent that is counted. -/
def exponentLimit : Nat := Number.twoPow 31 - 1

/-- Number of a numeral with neither fraction nor exponent whose digits all fit. -/
def integerValue (negative : Bool) (n : Nat) : Quantity :=
  if !negative then .integer n
  else if n = 0 ∨ Number.twoPow 63 < n then .float (-(Number.ofNat n))
  else .integer (-(n : Int))

def value? (numeral : Numeral) : Option Quantity :=
  let whole := accumulate wordLimit 0 numeral.whole
  let dropped := numeral.whole.length - whole.2
  let fraction := accumulate wordLimit whole.1 numeral.fraction
  let start : Int := (dropped : Int) - (fraction.2 : Int)
  match numeral.exponent with
  | none =>
    if numeral.fraction.isEmpty && dropped == 0 then
      some (integerValue numeral.negative whole.1)
    else (scaled numeral.negative fraction.1 start).map .float
  | some (down, digits) =>
    let e := accumulate exponentLimit 0 digits
    if e.2 < digits.length then
      if fraction.1 ≠ 0 ∧ !down then none
      else some (.float (if numeral.negative then -0.0 else 0.0))
    else
      (scaled numeral.negative fraction.1 (if down then start - e.1 else start + e.1)).map .float

/-- The digits behind a point at the front of a text; none if there is no point. -/
def readFraction : List Char → Option (List Char × List Char)
  | '.' :: cs =>
    if (cs.takeWhile Char.isDigit).isEmpty then none
    else some (cs.takeWhile Char.isDigit, cs.dropWhile Char.isDigit)
  | cs => some ([], cs)

/-- The sign and the digits behind an exponent mark at the front of a text. -/
def readExponent : List Char → Option (Option (Bool × List Char) × List Char)
  | [] => some (none, [])
  | c :: cs =>
    if c == 'e' || c == 'E' then
      let signed := Number.takeSign cs
      if (signed.2.takeWhile Char.isDigit).isEmpty then none
      else some (some (signed.1, signed.2.takeWhile Char.isDigit), signed.2.dropWhile Char.isDigit)
    else some (none, c :: cs)

/-- A numeral without a sign: no superfluous zero in front, digits after a point and after an
exponent mark. -/
def readUnsigned (negative : Bool) (cs : List Char) : Option (Numeral × List Char) :=
  let whole := cs.takeWhile Char.isDigit
  if whole.isEmpty || (whole.head? == some '0' && 1 < whole.length) then none
  else
    (readFraction (cs.dropWhile Char.isDigit)).bind fun fraction =>
      (readExponent fraction.2).map fun exponent =>
        (⟨negative, whole, fraction.1, exponent.1⟩, exponent.2)

/-- A numeral at the front of a text. -/
def read : List Char → Option (Numeral × List Char)
  | '-' :: cs => readUnsigned true cs
  | cs => readUnsigned false cs

end Numeral
end Json
end ScoringTree
