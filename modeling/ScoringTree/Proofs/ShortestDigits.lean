import ScoringTree.Number.Shortest
import ScoringTree.Proofs.NearestFloat

/-!
# ScoringTree.Proofs.ShortestDigits

The shortest digits of a float stand for a number that is rounded to it.

Each grid is searched at the two points around the value. The points of a grid of 17 digits stand
closer to each other than the float reaches to both sides, so the search ends at a point that the
float owns. A carry into one more digit and the zeros at the end do not change the number.

* `inInterval_owns`   — the test of the search is that the float owns the decimal.
* `onGrid_fine`       — 17 digits are enough.
* `searchGrids_hit`   — where the search ends.
* `shortest_owns`     — so the shortest digits are rounded to the float.
-/

namespace ScoringTree
namespace Number

/-! ## The interval -/

theorem binaryFraction_eq : binaryFraction = scaled 2 := rfl

theorem inUnits_eq : inUnits = measured 10 := rfl

theorem ratio_le_iff {a b c d : Nat} (hb : 0 < b) (hd : 0 < d) :
    a * d ≤ c * b ↔ (a : ℚ) / b ≤ c / d := by
  rw [div_le_div_iff₀ (by exact_mod_cast hb) (by exact_mod_cast hd)]
  exact_mod_cast Iff.rfl

theorem ratio_lt_iff {a b c d : Nat} (hb : 0 < b) (hd : 0 < d) :
    a * d < c * b ↔ (a : ℚ) / b < c / d := by
  rw [div_lt_div_iff₀ (by exact_mod_cast hb) (by exact_mod_cast hd)]
  exact_mod_cast Iff.rfl

/-- The interval test of the search, as one of fractions. -/
theorem inInterval_iff (low high : Nat) (q : Int) (closed : Bool) (c : Nat) (e : Int) :
    inInterval low high q closed c e = true ↔
      if closed then
        (low : ℚ) * 2 ^ (q - 2) ≤ c * 10 ^ e ∧ (c : ℚ) * 10 ^ e ≤ high * 2 ^ (q - 2)
      else (low : ℚ) * 2 ^ (q - 2) < c * 10 ^ e ∧ (c : ℚ) * 10 ^ e < high * 2 ^ (q - 2) := by
  have hbelow := scaled_pos two_pos low (q - 2)
  have habove := scaled_pos two_pos high (q - 2)
  have hvalue := scaled_pos (b := 10) (by decide) c e
  have hdecimal : (if 0 ≤ e then (c * tenPow e.toNat, 1) else (c, tenPow (-e).toNat)) =
      scaled 10 c e := rfl
  unfold inInterval
  rw [binaryFraction_eq, hdecimal]
  dsimp only
  cases closed
  · simp only [Bool.false_eq_true, if_false, Bool.and_eq_true, decide_eq_true_eq]
    rw [ratio_lt_iff hbelow hvalue, ratio_lt_iff hvalue habove, scaled_ratio, scaled_ratio,
      scaled_ratio]
    norm_cast
  · simp only [if_true, Bool.and_eq_true, decide_eq_true_eq]
    rw [ratio_le_iff hbelow hvalue, ratio_le_iff hvalue habove, scaled_ratio, scaled_ratio,
      scaled_ratio]
    norm_cast

/-- The lower end of the fractions of `m * 2 ^ q`, in quarters of `2 ^ q`. -/
def lowEnd (m : Nat) (q : Int) : Nat :=
  if m = twoPow 52 ∧ -1074 < q then 4 * m - 1 else 4 * m - 2

theorem lowEnd_eq {m : Nat} (hm : 0 < m) (q : Int) : (lowEnd m q : ℚ) = 4 * (m - reach m q) := by
  unfold lowEnd reach
  have hone : 1 ≤ 4 * m := by omega
  have htwo : 2 ≤ 4 * m := by omega
  dsimp only [twoPow, Nat.pow_eq]
  split_ifs
  · push_cast [hone]
    ring
  · push_cast [htwo]
    ring

/-- A decimal passes the test exactly when the float owns it. -/
theorem inInterval_owns {m : Nat} (hm : 0 < m) (q : Int) (c : Nat) (e : Int) :
    inInterval (lowEnd m q) (4 * m + 2) q (m % 2 == 0) c e = true ↔ Owns m q (c * 10 ^ e) := by
  have hq : (0 : ℚ) < 2 ^ q := by positivity
  have hlow : (lowEnd m q : ℚ) * 2 ^ (q - 2) = (m - reach m q) * 2 ^ q := by
    rw [lowEnd_eq hm, zpow_sub₀ (by norm_num)]
    ring
  have hhigh : ((4 * m + 2 : Nat) : ℚ) * 2 ^ (q - 2) = (m + 1 / 2) * 2 ^ q := by
    rw [zpow_sub₀ (by norm_num)]
    push_cast
    ring
  rw [inInterval_iff, hlow, hhigh]
  simp only [← le_div_iff₀ hq, ← div_le_iff₀ hq, ← lt_div_iff₀ hq, ← div_lt_iff₀ hq, beq_iff_eq]
  constructor
  · intro h
    split_ifs at h with heven
    · exact ⟨h.1, h.2, fun hodd => by omega⟩
    · exact ⟨h.1.le, h.2.le, fun _ => h⟩
  · intro h
    split_ifs with heven
    · exact ⟨h.low, h.high⟩
    · exact h.odd (by omega)

/-! ## The grids -/

/-- The last point of the grid of `10 ^ e` that is not beyond `m * 2 ^ q`. -/
def gridFloor (m : Nat) (q e : Int) : Nat :=
  let units := inUnits (binaryFraction m q).1 (binaryFraction m q).2 e
  units.1 / units.2

section Grid

variable {tie : Tie} {m n c : Nat} {q point e : Int}

theorem gridFloor_le_iff {k : Nat} : k ≤ gridFloor m q e ↔ (k : ℚ) * 10 ^ e ≤ m * 2 ^ q := by
  have hvalue := scaled_pos two_pos m q
  have hunit : (0 : ℚ) < (10 : Nat) ^ e := by positivity
  unfold gridFloor
  rw [binaryFraction_eq, inUnits_eq]
  dsimp only
  rw [le_div_iff_ratio (measured_pos (by decide) _ hvalue e), measured_ratio, scaled_ratio,
    le_div_iff₀ hunit]
  norm_cast

theorem gridFloor_le : (gridFloor m q e : ℚ) * 10 ^ e ≤ m * 2 ^ q := gridFloor_le_iff.1 le_rfl

theorem lt_gridFloor : (m : ℚ) * 2 ^ q < (gridFloor m q e + 1 : Nat) * 10 ^ e :=
  not_le.1 fun h => Nat.not_succ_le_self _ (gridFloor_le_iff.2 h)

/-- The point of the grid nearer to `m * 2 ^ q`. -/
def gridNearest (tie : Tie) (m : Nat) (q e : Int) : Nat :=
  let units := inUnits (binaryFraction m q).1 (binaryFraction m q).2 e
  match compare (2 * (units.1 % units.2)) units.2 with
  | .lt => gridFloor m q e
  | .eq => tie.pick (gridFloor m q e)
  | .gt => gridFloor m q e + 1

theorem gridNearest_cases (tie : Tie) (m : Nat) (q e : Int) :
    gridNearest tie m q e = gridFloor m q e ∨ gridNearest tie m q e = gridFloor m q e + 1 := by
  unfold gridNearest
  dsimp only
  split
  · exact .inl rfl
  · cases tie with
    | up => exact .inr rfl
    | even =>
      unfold Tie.pick
      dsimp only
      split
      · exact .inl rfl
      · exact .inr rfl
  · exact .inr rfl

/-- Whether a point of the grid reads back. -/
def gridFits (m : Nat) (q e : Int) (c : Nat) : Bool :=
  inInterval (lowEnd m q) (4 * m + 2) q (m % 2 == 0) c e

theorem gridFits_iff (hm : 0 < m) : gridFits m q e c = true ↔ Owns m q (c * 10 ^ e) :=
  inInterval_owns hm q c e

theorem onGrid_eq : onGrid tie m q point n =
    if gridFits m q (point - n) (gridFloor m q (point - n)) &&
        gridFits m q (point - n) (gridFloor m q (point - n) + 1) then
      some (gridNearest tie m q (point - n))
    else if gridFits m q (point - n) (gridFloor m q (point - n)) then
      some (gridFloor m q (point - n))
    else if gridFits m q (point - n) (gridFloor m q (point - n) + 1) then
      some (gridFloor m q (point - n) + 1)
    else none := rfl

/-- The point taken from a grid reads back, and does not lie before the last one up to the value. -/
theorem onGrid_some (h : onGrid tie m q point n = some c) :
    gridFloor m q (point - n) ≤ c ∧ gridFits m q (point - n) c = true := by
  rw [onGrid_eq] at h
  split_ifs at h with hboth hdown hup
  · rw [Bool.and_eq_true] at hboth
    obtain rfl := Option.some.inj h
    rcases gridNearest_cases tie m q (point - n) with heq | heq
    · rw [heq]
      exact ⟨le_rfl, hboth.1⟩
    · rw [heq]
      exact ⟨Nat.le_succ _, hboth.2⟩
  · obtain rfl := Option.some.inj h
    exact ⟨le_rfl, hdown⟩
  · obtain rfl := Option.some.inj h
    exact ⟨Nat.le_succ _, hup⟩

theorem onGrid_isSome (h : gridFits m q (point - n) (gridFloor m q (point - n)) = true ∨
      gridFits m q (point - n) (gridFloor m q (point - n) + 1) = true) :
    onGrid tie m q point n ≠ none := by
  rw [onGrid_eq]
  intro hnone
  split_ifs at hnone with hboth hdown hup
  rcases h with h | h
  · exact hdown h
  · exact hup h

theorem Owns.of_inside {v : ℚ} (hlow : m - reach m q < v / 2 ^ q) (hhigh : v / 2 ^ q < m + 1 / 2) :
    Owns m q v :=
  ⟨hlow.le, hhigh.le, fun _ => ⟨hlow, hhigh⟩⟩

/-- Steps of a part in `10 ^ 16` are less than twice as wide as the fractions of a float reach. -/
theorem lt_reach {w : ℚ} (hm : m < 2 ^ 53) (hw : w ≤ m / 10 ^ 16) : w / 2 < reach m q := by
  have hbits : (m : ℚ) < 2 ^ 53 := by exact_mod_cast hm
  have hm16 : w * 10 ^ 16 ≤ m := (le_div_iff₀ (by positivity)).1 hw
  unfold reach
  split_ifs with hpower
  · have : (m : ℚ) = 2 ^ 52 := by exact_mod_cast hpower.1
    linarith
  · linarith

/-- With 17 digits, one of the two neighbours reads back. -/
theorem onGrid_fine (hm : InFormat m q) (hpos : 0 < m) (hn : 17 ≤ n)
    (hpoint : (10 : ℚ) ^ (point - 1) ≤ m * 2 ^ q) : onGrid tie m q point n ≠ none := by
  apply onGrid_isSome
  rw [gridFits_iff hpos, gridFits_iff hpos]
  have hq : (0 : ℚ) < 2 ^ q := by positivity
  have hdown := gridFloor_le (m := m) (q := q) (e := point - n)
  have hup := lt_gridFloor (m := m) (q := q) (e := point - n)
  generalize gridFloor m q (point - n) = k at *
  have hstep : (10 : ℚ) ^ (point - n) / 2 ^ q ≤ m / 10 ^ 16 := by
    rw [div_le_div_iff₀ hq (by positivity)]
    calc (10 : ℚ) ^ (point - n) * 10 ^ 16 = 10 ^ (point - n + 16) := by
          rw [zpow_add₀ (by norm_num)]
          norm_cast
      _ ≤ 10 ^ (point - 1) := zpow_le_zpow_right₀ (by norm_num) (by omega)
      _ ≤ m * 2 ^ q := hpoint
  have hhalf := lt_reach (q := q) hm.bits hstep
  have hreach := reach_le m q
  rw [← div_le_iff₀ hq, mul_div_assoc] at hdown
  rw [← lt_div_iff₀ hq, mul_div_assoc, Nat.cast_add, Nat.cast_one] at hup
  -- The nearer neighbour is at most half a step away.
  rcases le_total ((m : ℚ) - k * (10 ^ (point - n) / 2 ^ q)) (10 ^ (point - n) / 2 ^ q / 2) with
    hnear | hnear
  · left
    apply Owns.of_inside
    · rw [mul_div_assoc]
      linarith
    · rw [mul_div_assoc]
      linarith
  · right
    apply Owns.of_inside
    · rw [mul_div_assoc]
      push_cast
      linarith
    · rw [mul_div_assoc]
      push_cast
      linarith

/-- Where the search may end: at a point that reads back and is not before the last one up to the
value. -/
structure Hit (m : Nat) (q point : Int) (hit : Nat × Nat) : Prop where
  floor : gridFloor m q (point - hit.2) ≤ hit.1
  owns : Owns m q (hit.1 * 10 ^ (point - hit.2))

theorem hit_of_onGrid (hpos : 0 < m) (h : onGrid tie m q point n = some c) :
    Hit m q point (c, n) := by
  obtain ⟨hfloor, hfits⟩ := onGrid_some h
  exact ⟨hfloor, (gridFits_iff hpos).1 hfits⟩

theorem searchGrids_hit (tie : Tie) {tries : Nat} (hm : InFormat m q) (hpos : 0 < m)
    (hpoint : (10 : ℚ) ^ (point - 1) ≤ m * 2 ^ q) (hn : 17 ≤ n + tries) :
    n ≤ (searchGrids tie m q point tries n).2 ∧
      Hit m q point (searchGrids tie m q point tries n) := by
  induction tries generalizing n with
  | zero =>
    unfold searchGrids
    cases hgrid : onGrid tie m q point n with
    | none => exact absurd hgrid (onGrid_fine hm hpos hn hpoint)
    | some c => exact ⟨le_rfl, hit_of_onGrid hpos hgrid⟩
  | succ tries ih =>
    unfold searchGrids
    cases hgrid : onGrid tie m q point n with
    | none =>
      obtain ⟨hle, h⟩ := ih (by omega : 17 ≤ n + 1 + tries)
      exact ⟨(Nat.le_succ n).trans hle, h⟩
    | some c => exact ⟨le_rfl, hit_of_onGrid hpos hgrid⟩

end Grid

/-! ## The digits -/

/-- The point is not placed beyond the first digit. -/
theorem decimalPoint_le {num den : Nat} (hnum : 0 < num) (hden : 0 < den) :
    (10 : ℚ) ^ (decimalPoint num den - 1) ≤ num / den := by
  have hnum' : (0 : ℚ) < num := by exact_mod_cast hnum
  have hden' : (0 : ℚ) < den := by exact_mod_cast hden
  unfold decimalPoint
  dsimp only [tenPow, Nat.pow_eq]
  split_ifs with hwhole hpower
  · have hcount := digitCount_pos (num / den)
    have hle := pow_le_of_digitCount (Nat.div_pos hwhole hden)
    rw [le_div_iff_ratio hden] at hle
    rw [show (digitCount (num / den) : Int) - 1 = (digitCount (num / den) - 1 : Nat) by omega,
      zpow_natCast]
    exact_mod_cast hle
  · have hcount := digitCount_pos (den / num)
    rw [show 2 - (digitCount (den / num) : Int) - 1 = -(digitCount (den / num) - 1 : Nat) by omega,
      zpow_neg, zpow_natCast, inv_le_comm₀ (by positivity) (by positivity), inv_div,
      div_le_iff₀ hnum', mul_comm]
    exact_mod_cast hpower
  · have hlt := lt_pow_digitCount (den / num)
    rw [Nat.div_lt_iff_lt_mul hnum] at hlt
    rw [show 1 - (digitCount (den / num) : Int) - 1 = -(digitCount (den / num) : Nat) by omega,
      zpow_neg, zpow_natCast, inv_le_comm₀ (by positivity) (by positivity), inv_div,
      div_le_iff₀ hnum']
    exact_mod_cast hlt.le

theorem digitCount_mul_ten {n : Nat} (hn : 0 < n) : digitCount (10 * n) = digitCount n + 1 := by
  unfold digitCount
  rw [Nat.toDigits_of_base_le (by decide) (by omega), List.length_append,
    Nat.mul_div_cancel_left n (by decide)]
  rfl

/-- Zeros are dropped from the end alone. -/
theorem dropZeros_spec (fuel : Nat) {c : Nat} (hc : 0 < c) :
    0 < dropZeros fuel c ∧ ∃ k, c = dropZeros fuel c * 10 ^ k ∧
      digitCount c = digitCount (dropZeros fuel c) + k := by
  induction fuel generalizing c with
  | zero => exact ⟨hc, 0, (Nat.mul_one c).symm, rfl⟩
  | succ fuel ih =>
    unfold dropZeros
    split
    · rename_i hzero
      obtain ⟨d, rfl⟩ : ∃ d, c = 10 * d := ⟨c / 10, by omega⟩
      rw [Nat.mul_div_cancel_left d (by decide)]
      have hd : 0 < d := by omega
      obtain ⟨hpos, k, hvalue, hcount⟩ := ih hd
      refine ⟨hpos, k + 1, ?_, ?_⟩
      · rw [Nat.pow_succ, ← Nat.mul_assoc, ← hvalue, Nat.mul_comm]
      · rw [digitCount_mul_ten hd, hcount]
        rfl
    · exact ⟨hc, 0, (Nat.mul_one c).symm, rfl⟩

/-- The number that digits with a point stand for. -/
def Digits.value (d : Digits) : ℚ := d.coefficient * 10 ^ (d.point - digitCount d.coefficient)

section

variable {m : Nat} {q : Int}

theorem Hit.le_digitCount {point : Int} {hit : Nat × Nat} (h : Hit m q point hit)
    (hpoint : (10 : ℚ) ^ (point - 1) ≤ m * 2 ^ q) (hn : 1 ≤ hit.2) : hit.2 ≤ digitCount hit.1 := by
  have hgrid : 10 ^ (hit.2 - 1) ≤ gridFloor m q (point - hit.2) := by
    rw [gridFloor_le_iff]
    calc ((10 ^ (hit.2 - 1) : Nat) : ℚ) * 10 ^ (point - hit.2) = 10 ^ (point - 1) := by
          rw [Nat.cast_pow, ← zpow_natCast, Nat.cast_ofNat, ← zpow_add₀ (by norm_num)]
          congr 1
          omega
      _ ≤ m * 2 ^ q := hpoint
  have hcount := digitCount_pos hit.1
  by_contra hlt
  have hsmall := (digitCount_le_iff (n := hit.1) (k := hit.2 - 1) (by omega)).1 (by omega)
  exact absurd (hgrid.trans h.floor) (not_le.2 hsmall)

/-- The shortest digits of a float stand for a number that is rounded to it. -/
theorem shortest_owns (tie : Tie) (hm : InFormat m q) (hpos : 0 < m) :
    0 < (shortest tie m q).coefficient ∧ Owns m q (shortest tie m q).value := by
  have hpoint : (10 : ℚ) ^ (decimalPoint (binaryFraction m q).1 (binaryFraction m q).2 - 1) ≤
      m * 2 ^ q := by
    have hnum : 0 < (scaled 2 m q).1 := by
      unfold scaled
      split <;> positivity
    have hle := decimalPoint_le hnum (scaled_pos two_pos m q)
    rw [scaled_ratio] at hle
    exact_mod_cast hle
  unfold shortest Digits.value
  dsimp only
  generalize decimalPoint (binaryFraction m q).1 (binaryFraction m q).2 = point at *
  obtain ⟨hone, hhit⟩ := searchGrids_hit tie hm hpos hpoint (le_refl (1 + 16))
  have hdigits := hhit.le_digitCount hpoint hone
  have howns := hhit.owns
  generalize searchGrids tie m q point 16 1 = hit at *
  obtain ⟨hcoefficient, k, hvalue, hcount⟩ :=
    dropZeros_spec (digitCount hit.1) (howns.coefficient_pos hpos)
  generalize dropZeros (digitCount hit.1) hit.1 = c at *
  refine ⟨hcoefficient, ?_⟩
  -- A carry moves the point by the digit it adds, and the zeros dropped are counted back in.
  have hexponent : point + ((digitCount hit.1 - hit.2 : Nat) : Int) - digitCount c =
      k + (point - hit.2) := by omega
  rw [hexponent, zpow_add₀ (by norm_num), ← mul_assoc, zpow_natCast]
  rw [hvalue] at howns
  exact_mod_cast howns

end

end Number
end ScoringTree
