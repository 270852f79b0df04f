/-!
# ScoringTree.Number.Binary64

Double-precision numbers as exact fractions.

* `twoPow`, `tenPow`
                — powers of two and of ten.
* `Parts`       — what a float stands for: not a number, an infinity, or `m * 2 ^ q` with a sign.
* `parts`       — the parts of a float, read off its bits.
* `ofRatio`     — the float nearest to a fraction, a tie going to the even neighbour.
* `ofDecimal`   — the float nearest to `m * 10 ^ e`.
* `isFinite`    — neither infinite nor not a number.
-/

namespace ScoringTree
namespace Number

/-- Powers of two. -/
abbrev twoPow (n : Nat) : Nat := Nat.pow 2 n

/-- Powers of ten. -/
abbrev tenPow (n : Nat) : Nat := Nat.pow 10 n

inductive Parts where
  | nan
  | infinite (negative : Bool)
  | finite (negative : Bool) (m : Nat) (q : Int)
  deriving DecidableEq, Repr

/-- The bit fields of the format: a sign, eleven bits of exponent, 52 bits of fraction. -/
def parts (x : Float) : Parts :=
  let bits := x.toBits.toNat
  let negative := decide (twoPow 63 ≤ bits)
  let exponent : Nat := bits / twoPow 52 % twoPow 11
  let fraction : Nat := bits % twoPow 52
  if exponent = 2047 then
    if fraction = 0 then .infinite negative else .nan
  else if exponent = 0 then .finite negative fraction (-1074)
  else .finite negative (twoPow 52 + fraction) ((exponent : Int) - 1075)

def isFinite (x : Float) : Bool :=
  match parts x with
  | .finite _ _ _ => true
  | _ => false

/-- The quotient of `num` by `den`, to the nearest integer, a tie going to the even one. -/
def divEven (num den : Nat) : Nat :=
  let q := num / den
  let r := num % den
  if 2 * r < den then q
  else if den < 2 * r then q + 1
  else if q % 2 = 0 then q
  else q + 1

/-- `num / den / 2 ^ e` as a fraction of naturals. -/
def scaleDown (num den : Nat) (e : Int) : Nat × Nat :=
  if 0 ≤ e then (num, den * twoPow e.toNat) else (num * twoPow (-e).toNat, den)

/-- The power of two that leaves 53 bits before the point of `num / den`, but never below the
least one of the format. -/
def ulpExponent (num den : Nat) : Int :=
  let guess : Int := (num.log2 : Int) - (den.log2 : Int) - 52
  let s := scaleDown num den guess
  let e := if twoPow 52 ≤ s.1 / s.2 then guess else guess - 1
  max e (-1074)

/-- The bits of the float nearest to `num / den`; the bits of infinity when it is too large. -/
def ratioBits (num den : Nat) : Nat :=
  if num = 0 then 0
  else
    let e := ulpExponent num den
    let s := scaleDown num den e
    min ((e + 1074).toNat * twoPow 52 + divEven s.1 s.2) (2047 * twoPow 52)

def ofRatio (negative : Bool) (num den : Nat) : Float :=
  let bits := ratioBits num den
  Float.ofBits (UInt64.ofNat (if negative then twoPow 63 + bits else bits))

/-- Number of decimal digits of `n`; one for zero. -/
def digitCount (n : Nat) : Nat := (Nat.toDigits 10 n).length

/-- The float nearest to `m * 10 ^ e`. Values beyond any float, above or below, are settled by
the position of the first digit alone. -/
def ofDecimal (negative : Bool) (m : Nat) (e : Int) : Float :=
  let size : Int := digitCount m + e
  if m = 0 ∨ size < -400 then ofRatio negative 0 1
  else if 400 < size then ofRatio negative (twoPow 2000) 1
  else if 0 ≤ e then ofRatio negative (m * tenPow e.toNat) 1
  else ofRatio negative m (tenPow (-e).toNat)

/-- The float nearest to a natural number. -/
def ofNat (n : Nat) : Float := ofRatio false n 1

end Number
end ScoringTree
