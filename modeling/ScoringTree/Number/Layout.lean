import ScoringTree.Number.Shortest

/-!
# ScoringTree.Number.Layout

How the digits of a number are laid out as text. One record per format says where positional
notation ends, whether a whole number keeps a fraction, how an exponent is signed, and which of two
shortest texts equally near is written.

* `Layout.plain`    — positional always, `1` and `0.0000001`; numbers in the text of a rule.
* `Layout.source`   — `1.0`, `1e16`, `1e-5`; numbers in generated source and in answers.
* `Layout.json`     — `1.0`, `1e+16`, `1e-6`, and `null` where there is no number.
-/

namespace ScoringTree
namespace Number

structure Layout where
  /-- The positions of the decimal point that are written positionally; all, if absent. -/
  window : Option (Int × Int)
  /-- A whole number in positional notation ends in `.0`. -/
  wholeFraction : Bool
  /-- A positive exponent carries a plus sign. -/
  plusSign : Bool
  /-- Which of two shortest texts equally near is written. -/
  tie : Tie
  nan : String
  infinity : String
  negativeInfinity : String

namespace Layout

def plain : Layout := ⟨none, false, false, .up, "NaN", "inf", "-inf"⟩

def source : Layout := ⟨some (-3, 16), true, false, .up, "NaN", "inf", "-inf"⟩

def json : Layout := ⟨some (-4, 16), true, true, .even, "null", "null", "null"⟩

end Layout

def decimalText (n : Nat) : List Char := Nat.toDigits 10 n

/-- Digits with the point inside, before or behind them. -/
def positional (layout : Layout) (d : Digits) : List Char :=
  let digits := decimalText d.coefficient
  let whole := if layout.wholeFraction then ['.', '0'] else []
  if d.point ≤ 0 then
    ['0', '.'] ++ List.replicate (-d.point).toNat '0' ++ digits
  else
    let n := d.point.toNat
    if digits.length ≤ n then
      digits ++ List.replicate (n - digits.length) '0' ++ whole
    else digits.take n ++ ['.'] ++ digits.drop n

/-- One digit before the point, and an exponent. -/
def scientific (layout : Layout) (d : Digits) : List Char :=
  let digits := decimalText d.coefficient
  let exponent := d.point - 1
  let mantissa :=
    match digits with
    | first :: second :: rest => first :: '.' :: second :: rest
    | short => short
  let sign :=
    if exponent < 0 then ['-'] else if layout.plusSign then ['+'] else []
  mantissa ++ ['e'] ++ sign ++ decimalText exponent.natAbs

def digitsText (layout : Layout) (d : Digits) : List Char :=
  match layout.window with
  | none => positional layout d
  | some (least, greatest) =>
    if least ≤ d.point ∧ d.point ≤ greatest then positional layout d else scientific layout d

def floatChars (layout : Layout) (x : Float) : List Char :=
  match parts x with
  | .nan => layout.nan.toList
  | .infinite false => layout.infinity.toList
  | .infinite true => layout.negativeInfinity.toList
  | .finite negative m q =>
    let digits :=
      if m = 0 then '0' :: (if layout.wholeFraction then ['.', '0'] else [])
      else digitsText layout (shortest layout.tie m q)
    if negative then '-' :: digits else digits

/-- The text of a float under a layout. -/
def floatText (layout : Layout) (x : Float) : String :=
  String.ofList (floatChars layout x)

end Number
end ScoringTree
