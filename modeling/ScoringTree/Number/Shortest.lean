import ScoringTree.Number.Binary64

/-!
# ScoringTree.Number.Shortest

The fewest decimal digits that read back as a given float.

A positive float `m * 2 ^ q` owns the interval of reals that round to it, ends included exactly
when `m` is even. For 1, 2, … 17 digits the two neighbours of the value on that decimal grid are
tested; the first grid with a hit wins, of two hits the nearer. Formats differ on an exact tie.

* `Tie`       — which of two neighbours equally near is taken.
* `shortest`  — the digits.
-/

namespace ScoringTree
namespace Number

/-- The decimal `0.d₁d₂… * 10 ^ point`, given by its digits `d₁d₂…` as one natural number. -/
structure Digits where
  coefficient : Nat
  point : Int
  deriving DecidableEq, Repr

/-- Which of two neighbours equally near is taken. -/
inductive Tie where
  | up
  | even
  deriving DecidableEq, Repr

namespace Tie

/-- The one to take of `down` and its successor. -/
def pick (tie : Tie) (down : Nat) : Nat :=
  match tie with
  | .up => down + 1
  | .even => if down % 2 = 0 then down else down + 1

end Tie

/-- A fraction `num * 2 ^ e` of naturals, `e` of either sign. -/
def binaryFraction (num : Nat) (e : Int) : Nat × Nat :=
  if 0 ≤ e then (num * twoPow e.toNat, 1) else (num, twoPow (-e).toNat)

/-- The `k` with `10 ^ (k - 1) ≤ num / den < 10 ^ k`, for a positive fraction. -/
def decimalPoint (num den : Nat) : Int :=
  if den ≤ num then digitCount (num / den)
  else
    let t := digitCount (den / num)
    if den ≤ num * tenPow (t - 1) then 2 - (t : Int) else 1 - (t : Int)

/-- `num / den` in units of `10 ^ e`, as a fraction. -/
def inUnits (num den : Nat) (e : Int) : Nat × Nat :=
  if 0 ≤ e then (num, den * tenPow e.toNat) else (num * tenPow (-e).toNat, den)

/-- `c * 10 ^ e` lies in the interval of `m * 2 ^ q`, which reaches `low` and `high` quarters of
`2 ^ q` from zero. -/
def inInterval (low high : Nat) (q : Int) (closed : Bool) (c : Nat) (e : Int) : Bool :=
  let below := binaryFraction low (q - 2)
  let above := binaryFraction high (q - 2)
  let value := if 0 ≤ e then (c * tenPow e.toNat, 1) else (c, tenPow (-e).toNat)
  if closed then
    decide (below.1 * value.2 ≤ value.1 * below.2) && decide (value.1 * above.2 ≤ above.1 * value.2)
  else
    decide (below.1 * value.2 < value.1 * below.2) && decide (value.1 * above.2 < above.1 * value.2)

/-- Of the two neighbours on the grid of `n` digits, the one to take, if any reads back. -/
def onGrid (tie : Tie) (m : Nat) (q : Int) (point : Int) (n : Nat) : Option Nat :=
  let low := if m = twoPow 52 ∧ -1074 < q then 4 * m - 1 else 4 * m - 2
  let high := 4 * m + 2
  let closed := m % 2 == 0
  let e := point - n
  let value := binaryFraction m q
  let units := inUnits value.1 value.2 e
  let down := units.1 / units.2
  let downFits := inInterval low high q closed down e
  let upFits := inInterval low high q closed (down + 1) e
  if downFits && upFits then
    some (
      match compare (2 * (units.1 % units.2)) units.2 with
      | .lt => down
      | .eq => tie.pick down
      | .gt => down + 1)
  else if downFits then some down
  else if upFits then some (down + 1)
  else none

/-- The first grid of at least `n` digits with a hit, trying `tries` grids. -/
def searchGrids (tie : Tie) (m : Nat) (q : Int) (point : Int) : Nat → Nat → Nat × Nat
  | 0, n => ((onGrid tie m q point n).getD 0, n)
  | tries + 1, n =>
    match onGrid tie m q point n with
    | some c => (c, n)
    | none => searchGrids tie m q point tries (n + 1)

/-- Zeros at the end of a coefficient are dropped. -/
def dropZeros : Nat → Nat → Nat
  | 0, c => c
  | fuel + 1, c => if c % 10 = 0 ∧ c ≠ 0 then dropZeros fuel (c / 10) else c

/-- The shortest digits of the positive float `m * 2 ^ q`. -/
def shortest (tie : Tie) (m : Nat) (q : Int) : Digits :=
  let value := binaryFraction m q
  let point := decimalPoint value.1 value.2
  let hit := searchGrids tie m q point 16 1
  -- Rounding up can carry into one digit more than the grid has.
  let carried := digitCount hit.1 - hit.2
  { coefficient := dropZeros (digitCount hit.1) hit.1, point := point + carried }

end Number
end ScoringTree
