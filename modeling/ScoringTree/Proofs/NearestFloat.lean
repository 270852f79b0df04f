import Mathlib.Algebra.Order.Field.Power
import Mathlib.Data.Rat.Cast.Order
import Mathlib.Tactic.FieldSimp
import Mathlib.Tactic.Linarith
import Mathlib.Tactic.Positivity
import Mathlib.Tactic.Ring
import ScoringTree.Number.Binary64

/-!
# ScoringTree.Proofs.NearestFloat

The float nearest to a fraction.

Every finite float `m * 2 ^ q` owns the fractions that are rounded to it: those less than half of
the way to the next float on either side, and the two ends as well when `m` is even.

* `ofBits_toBits`       — a float is what its bits say.
* `Owns`                — the fractions of a float.
* `Owns.exponent_cases` — rounding measures a fraction with the exponent of its float, or carries.
* `ofRatio_eq`, `ofDecimal_eq`
                        — a fraction and a decimal are rounded to the float that owns them.
-/

namespace ScoringTree
namespace Number

/-! ## Bits -/

section Bits

open Float.Model (Format)
open Float.Model.UnpackedFloat

theorem toBitVec_ofBitVec (s : BitVec 1) : (Sign.ofBitVec s).toBitVec = s := by
  revert s; decide

theorem packComponents_fields (b : BitVec Format.binary64.numBits) :
    packComponents Format.binary64 (Sign.ofBitVec (unpackSign b)) (unpackExponent b)
      (unpackMantissa b) = b := by
  delta packComponents
  rw [toBitVec_ofBitVec]
  delta unpackSign unpackExponent unpackMantissa
  apply BitVec.eq_of_toNat_eq
  have hb : b.toNat < 2 ^ 64 := b.isLt
  simp only [BitVec.toNat_append, BitVec.toNat_cast, BitVec.extractLsb_toNat]
  rw [← Nat.shiftLeft_add_eq_or_of_lt (Nat.mod_lt _ (by decide)),
    ← Nat.shiftLeft_add_eq_or_of_lt (Nat.mod_lt _ (by decide))]
  simp only [Nat.shiftLeft_eq, Nat.shiftRight_eq_div_pow]
  omega

theorem pack_finite (s : Sign) (m : Nat) (e : Int) (hm : 0 < m) :
    pack Format.binary64 (.finite s m e hm) =
      if 2048 ≤ (e + 1023 + 52).toNat + 1 then packedInfinity Format.binary64 s
      else if m.log2 + 1 = 53 then
        packComponents Format.binary64 s (BitVec.ofNat 11 (e + 1023 + 52).toNat) (BitVec.ofNat 52 m)
      else packComponents Format.binary64 s 0#11 (BitVec.ofNat 52 m) := rfl

variable (s : Sign) {exponent : BitVec 11} {mantissa : BitVec 52}

theorem pack_subnormal (hm : 0 < mantissa.toNat) :
    pack Format.binary64 (.finite s mantissa.toNat (-1074) hm) =
      packComponents Format.binary64 s 0#11 mantissa := by
  have hlog : mantissa.toNat.log2 < 52 := (Nat.log2_lt (by omega)).2 mantissa.isLt
  rw [pack_finite, if_neg (by decide), if_neg (by omega), BitVec.ofNat_toNat, BitVec.setWidth_eq]

theorem pack_normal (hspecial : exponent ≠ -1#11)
    (hm : 0 < (1#1 ++ mantissa).toNat) :
    pack Format.binary64 (.finite s (1#1 ++ mantissa).toNat (exponent.toNat - (1023 + 52)) hm) =
      packComponents Format.binary64 s exponent mantissa := by
  have hmantissa := mantissa.isLt
  have hexponent := exponent.isLt
  have hfinite : exponent.toNat ≠ 2047 := fun h => hspecial (BitVec.eq_of_toNat_eq h)
  have hvalue : (1#1 ++ mantissa).toNat = 2 ^ 52 + mantissa.toNat := by
    rw [BitVec.toNat_append, ← Nat.shiftLeft_add_eq_or_of_lt hmantissa]
    rfl
  have hlog : (1#1 ++ mantissa).toNat.log2 = 52 := by
    rw [hvalue, Nat.log2_eq_iff (by omega)]
    omega
  have hbias : ((exponent.toNat : Int) - (1023 + 52) + 1023 + 52).toNat = exponent.toNat := by omega
  have hfield : BitVec.ofNat 52 (1#1 ++ mantissa).toNat = mantissa := by
    apply BitVec.eq_of_toNat_eq
    rw [BitVec.toNat_ofNat, hvalue]
    omega
  rw [pack_finite, hbias, hlog, if_neg (by omega), if_pos rfl, hfield, BitVec.ofNat_toNat,
    BitVec.setWidth_eq]

theorem pack_unpack {b : BitVec Format.binary64.numBits} (h : Format.binary64.Valid b) :
    pack Format.binary64 (unpack Format.binary64 b) = b := by
  have hb := packComponents_fields b
  delta unpack
  dsimp only
  -- The exponent tells the classes apart: all ones where nothing finite is, zeros for subnormals.
  by_cases hspecial : unpackExponent b = -1#_
  · rw [if_pos hspecial]
    by_cases hzero : unpackMantissa b = 0#_
    · rw [hspecial, hzero] at hb
      rw [if_pos hzero]
      exact hb
    · rw [if_neg hzero]
      exact (h.eq_packedNaN hspecial hzero).symm
  · rw [if_neg hspecial]
    by_cases hsub : unpackExponent b = 0#_
    · rw [if_pos hsub]
      rw [hsub] at hb
      by_cases hzero : unpackMantissa b = 0#_
      · rw [hzero] at hb
        rw [dif_pos hzero]
        exact hb
      · rw [dif_neg hzero, hsub]
        exact (pack_subnormal _ _).trans hb
    · rw [if_neg hsub]
      exact (pack_normal _ hspecial _).trans hb

theorem ofBits_toBits (x : Float) : Float.ofBits x.toBits = x := by
  obtain ⟨⟨bits, valid⟩⟩ := x
  have hbits : (Float.Model.ofBits bits).toBits = bits :=
    congrArg UInt64.ofBitVec (pack_unpack valid)
  have hmodel : Float.Model.ofBits bits = ⟨bits, valid⟩ := by
    generalize Float.Model.ofBits bits = model at hbits
    cases model
    subst hbits
    rfl
  exact congrArg Float.ofModel hmodel

end Bits

/-! ## Floats as fractions -/

/-- A coefficient and an exponent of the format: 53 bits, and all of them unless the exponent is
the least. -/
structure InFormat (m : Nat) (q : Int) : Prop where
  bits : m < 2 ^ 53
  least : -1074 ≤ q
  greatest : q ≤ 971
  full : q = -1074 ∨ 2 ^ 52 ≤ m

/-- The bits of the float `m * 2 ^ q`, its sign apart. -/
def bitsOf (m : Nat) (q : Int) : Nat := (q + 1074).toNat * 2 ^ 52 + m

theorem parts_finite {x : Float} {negative : Bool} {m : Nat} {q : Int}
    (h : parts x = .finite negative m q) :
    InFormat m q ∧
      x.toBits.toNat = if negative then 2 ^ 63 + bitsOf m q else bitsOf m q := by
  have hbits : x.toBits.toNat < 2 ^ 64 := x.toBits.toNat_lt
  generalize hb : x.toBits.toNat = bits at hbits
  unfold parts at h
  simp only [hb, twoPow, Nat.pow_eq] at h
  split at h
  · split at h <;> cases h
  · split at h
    · cases h
      refine ⟨⟨by omega, by omega, by omega, by omega⟩, ?_⟩
      simp only [bitsOf, decide_eq_true_eq]
      split <;> omega
    · cases h
      refine ⟨⟨by omega, by omega, by omega, by omega⟩, ?_⟩
      simp only [bitsOf, decide_eq_true_eq]
      split <;> omega

/-! ## Fractions of naturals -/

/-- `num * b ^ e` as a fraction of naturals. -/
def scaled (b num : Nat) (e : Int) : Nat × Nat :=
  if 0 ≤ e then (num * b ^ e.toNat, 1) else (num, b ^ (-e).toNat)

/-- `num / den` in units of `b ^ e`, as a fraction of naturals. -/
def measured (b num den : Nat) (e : Int) : Nat × Nat :=
  if 0 ≤ e then (num, den * b ^ e.toNat) else (num * b ^ (-e).toNat, den)

theorem scaleDown_eq : scaleDown = measured 2 := rfl

section

variable {b : Nat} (hb : 0 < b) (num : Nat) {den : Nat} (hden : 0 < den) (e : Int)

theorem scaled_ratio : ((scaled b num e).1 : ℚ) / (scaled b num e).2 = num * b ^ e := by
  unfold scaled
  split_ifs with he
  · lift e to Nat using he
    simp
  · obtain ⟨k, rfl⟩ : ∃ k : Nat, e = -k := ⟨(-e).toNat, by omega⟩
    simp [div_eq_mul_inv]

theorem measured_ratio :
    ((measured b num den e).1 : ℚ) / (measured b num den e).2 = num / den / b ^ e := by
  unfold measured
  split_ifs with he
  · lift e to Nat using he
    simp [div_div]
  · obtain ⟨k, rfl⟩ : ∃ k : Nat, e = -k := ⟨(-e).toNat, by omega⟩
    simp [div_eq_mul_inv, mul_right_comm]

include hb

theorem scaled_pos : 0 < (scaled b num e).2 := by
  unfold scaled
  split
  · exact one_pos
  · exact Nat.pow_pos hb

include hden

theorem measured_pos : 0 < (measured b num den e).2 := by
  unfold measured
  split
  · exact Nat.mul_pos hden (Nat.pow_pos hb)
  · exact hden

end

theorem le_div_iff_ratio {n num den : Nat} (hden : 0 < den) :
    n ≤ num / den ↔ (n : ℚ) ≤ num / den := by
  rw [Nat.le_div_iff_mul_le hden, le_div_iff₀ (by exact_mod_cast hden)]
  exact_mod_cast Iff.rfl

/-! ## Rounding to a whole number -/

/-- The fractions that round to `n`: at most a half away, and less than that from an odd `n`. -/
structure Rounds (n : Nat) (w : ℚ) : Prop where
  low : (n : ℚ) - 1 / 2 ≤ w
  high : w ≤ n + 1 / 2
  odd : n % 2 = 1 → (n : ℚ) - 1 / 2 < w ∧ w < n + 1 / 2

theorem divEven_eq {num den n : Nat} (hden : 0 < den) (h : Rounds n ((num : ℚ) / den)) :
    divEven num den = n := by
  have hden' : (0 : ℚ) < den := by exact_mod_cast hden
  have hvalue : (num : ℚ) / den = (num / den : Nat) + ((num % den : Nat) : ℚ) / den := by
    rw [div_eq_iff hden'.ne', add_mul, div_mul_cancel₀ _ hden'.ne']
    exact_mod_cast (Nat.div_add_mod' num den).symm
  rw [hvalue] at h
  unfold divEven
  dsimp only
  generalize num / den = k at *
  have hr := Nat.mod_lt num hden
  generalize num % den = r at *
  have hf : (0 : ℚ) ≤ r / den := by positivity
  -- The rest against a half of the denominator decides which neighbour is the nearer.
  rcases Nat.lt_trichotomy (2 * r) den with hlt | heq | hgt
  · have hhalf : (r : ℚ) / den < 1 / 2 := by
      rw [div_lt_iff₀ hden']
      have : (2 * r : ℚ) < den := by exact_mod_cast hlt
      linarith
    have hle : n < k + 1 := by exact_mod_cast (by linarith [h.low] : (n : ℚ) < k + 1)
    have hge : k < n + 1 := by exact_mod_cast (by linarith [h.high] : (k : ℚ) < n + 1)
    rw [if_pos hlt]
    omega
  · have hhalf : (r : ℚ) / den = 1 / 2 := by
      rw [div_eq_iff hden'.ne']
      have : (2 * r : ℚ) = den := by exact_mod_cast heq
      linarith
    have hle : n ≤ k + 1 := by exact_mod_cast (by linarith [h.low] : (n : ℚ) ≤ k + 1)
    have hge : k ≤ n := by exact_mod_cast (by linarith [h.high] : (k : ℚ) ≤ n)
    have heven : n % 2 = 0 := by
      by_contra hodd
      obtain ⟨hlow, hhigh⟩ := h.odd (by omega)
      have hlt : n < k + 1 := by exact_mod_cast (by linarith : (n : ℚ) < k + 1)
      have hgt : k < n := by exact_mod_cast (by linarith : (k : ℚ) < n)
      omega
    rw [if_neg (by omega), if_neg (by omega)]
    split <;> omega
  · have hhalf : 1 / 2 < (r : ℚ) / den := by
      rw [lt_div_iff₀ hden']
      have : (den : ℚ) < 2 * r := by exact_mod_cast hgt
      linarith
    have hone : (r : ℚ) / den < 1 := by
      rw [div_lt_one hden']
      exact_mod_cast hr
    have hle : n < k + 2 := by exact_mod_cast (by linarith [h.low] : (n : ℚ) < k + 2)
    have hge : k < n := by exact_mod_cast (by linarith [h.high] : (k : ℚ) < n)
    rw [if_neg (by omega), if_pos hgt]
    omega

/-! ## The exponent of a fraction -/

theorem two_pow_log2_le {n : Nat} (h : 0 < n) : (2 : ℚ) ^ (n.log2 : Int) ≤ n := by
  rw [zpow_natCast]
  exact_mod_cast Nat.log2_self_le (Nat.ne_of_gt h)

theorem lt_two_pow_log2 (n : Nat) : (n : ℚ) < 2 ^ ((n.log2 : Int) + 1) := by
  have h : n < 2 ^ (n.log2 + 1) := Nat.lt_log2_self
  exact_mod_cast h

/-- The exponent that rounding chooses for the fraction `v`. -/
structure FitsExponent (v : ℚ) (e : Int) : Prop where
  least : -1074 ≤ e
  below : v < 2 ^ (e + 53)
  full : e = -1074 ∨ 2 ^ (e + 52) ≤ v

theorem FitsExponent.of_bounds {v : ℚ} {e : Int} (hbelow : v < 2 ^ (e + 53))
    (hfull : 2 ^ (e + 52) ≤ v) : FitsExponent v (max e (-1074)) := by
  rcases le_total (-1074) e with h | h
  · rw [max_eq_left h]
    exact ⟨h, hbelow, .inr hfull⟩
  · rw [max_eq_right h]
    refine ⟨le_rfl, hbelow.trans_le ?_, .inl rfl⟩
    exact zpow_le_zpow_right₀ (by norm_num) (by omega)

/-- Whether 53 bits stand before the point once the fraction is measured in `2 ^ e`. -/
theorem full_iff {num den : Nat} (hden : 0 < den) (e : Int) :
    twoPow 52 ≤ (scaleDown num den e).1 / (scaleDown num den e).2 ↔
      (2 : ℚ) ^ (e + 52) ≤ (num : ℚ) / den := by
  have hpos : (0 : ℚ) < (2 : Nat) ^ e := by positivity
  rw [scaleDown_eq, le_div_iff_ratio (measured_pos two_pos num hden e), measured_ratio,
    le_div_iff₀ hpos, zpow_add₀ (by norm_num), mul_comm]
  norm_num [twoPow]

theorem ulpExponent_fits {num den : Nat} (hnum : 0 < num) (hden : 0 < den) :
    FitsExponent ((num : ℚ) / den) (ulpExponent num den) := by
  have hden' : (0 : ℚ) < den := by exact_mod_cast hden
  have hlow : (2 : ℚ) ^ ((num.log2 : Int) - den.log2 - 1) ≤ (num : ℚ) / den := by
    rw [le_div_iff₀ hden']
    calc (2 : ℚ) ^ ((num.log2 : Int) - den.log2 - 1) * den
        ≤ 2 ^ ((num.log2 : Int) - den.log2 - 1) * 2 ^ ((den.log2 : Int) + 1) := by
          gcongr
          exact (lt_two_pow_log2 den).le
      _ = 2 ^ (num.log2 : Int) := by
          rw [← zpow_add₀ (by norm_num)]
          congr 1
          omega
      _ ≤ num := two_pow_log2_le hnum
  have hhigh : (num : ℚ) / den < 2 ^ ((num.log2 : Int) - den.log2 + 1) := by
    rw [div_lt_iff₀ hden']
    calc (num : ℚ) < 2 ^ ((num.log2 : Int) + 1) := lt_two_pow_log2 num
      _ = 2 ^ ((num.log2 : Int) - den.log2 + 1) * 2 ^ (den.log2 : Int) := by
          rw [← zpow_add₀ (by norm_num)]
          congr 1
          omega
      _ ≤ 2 ^ ((num.log2 : Int) - den.log2 + 1) * den := by
          gcongr
          exact two_pow_log2_le hden
  unfold ulpExponent
  dsimp only
  by_cases hfull : (2 : ℚ) ^ ((num.log2 : Int) - den.log2 - 52 + 52) ≤ (num : ℚ) / den
  · rw [if_pos ((full_iff hden _).2 hfull)]
    refine .of_bounds ?_ hfull
    rwa [show (num.log2 : Int) - den.log2 - 52 + 53 = num.log2 - den.log2 + 1 by omega]
  · rw [if_neg fun h => hfull ((full_iff hden _).1 h)]
    refine .of_bounds ?_ ?_
    · rw [show (num.log2 : Int) - den.log2 - 52 - 1 + 53 = num.log2 - den.log2 - 52 + 52 by omega]
      exact not_le.1 hfull
    · rwa [show (num.log2 : Int) - den.log2 - 52 - 1 + 52 = num.log2 - den.log2 - 1 by omega]

/-! ## The fractions of a float -/

/-- How far below `m * 2 ^ q` a fraction may lie that rounds to it, in units of `2 ^ q`: half of
the way to the float below, which is a nearer one below a power of two. -/
def reach (m : Nat) (q : Int) : ℚ := if m = 2 ^ 52 ∧ -1074 < q then 1 / 4 else 1 / 2

/-- The fractions that round to the float `m * 2 ^ q`; the two ends do exactly when `m` is even. -/
structure Owns (m : Nat) (q : Int) (v : ℚ) : Prop where
  low : m - reach m q ≤ v / 2 ^ q
  high : v / 2 ^ q ≤ m + 1 / 2
  odd : m % 2 = 1 → m - reach m q < v / 2 ^ q ∧ v / 2 ^ q < m + 1 / 2

theorem reach_le (m : Nat) (q : Int) : reach m q ≤ 1 / 2 := by
  unfold reach
  split <;> norm_num

theorem Owns.rounds {m : Nat} {q : Int} {v : ℚ} (h : Owns m q v) : Rounds m (v / 2 ^ q) where
  low := by linarith [h.low, reach_le m q]
  high := h.high
  odd hodd := by
    obtain ⟨hlow, hhigh⟩ := h.odd hodd
    exact ⟨by linarith [reach_le m q], hhigh⟩

theorem two_zpow_lt {a b : Int} : (2 : ℚ) ^ a < 2 ^ b ↔ a < b :=
  zpow_lt_zpow_iff_right₀ (by norm_num)

theorem div_lt_two_zpow {v : ℚ} {q k : Int} : v / 2 ^ q < 2 ^ k ↔ v < 2 ^ (k + q) := by
  rw [div_lt_iff₀ (by positivity), ← zpow_add₀ (by norm_num)]

section

variable {m : Nat} {q e : Int} {v : ℚ}

theorem Owns.below (hm : InFormat m q) (h : Owns m q v) : v < 2 ^ (53 + q) := by
  have hbits : (m : ℚ) + 1 ≤ 2 ^ 53 := by exact_mod_cast hm.bits
  rw [← div_lt_two_zpow]
  calc v / 2 ^ q ≤ m + 1 / 2 := h.high
    _ < 2 ^ 53 := by linarith
    _ = 2 ^ (53 : Int) := by norm_cast

theorem Owns.two_zpow_le {k : Int} (h : Owns m q v) (hk : (2 : ℚ) ^ k ≤ m - reach m q) :
    2 ^ (k + q) ≤ v := by
  rw [zpow_add₀ (by norm_num), ← le_div_iff₀ (by positivity)]
  exact hk.trans h.low

theorem Owns.half_le (hm : 0 < m) (h : Owns m q v) : 2 ^ (-1 + q) ≤ v := by
  have hone : (1 : ℚ) ≤ m := by exact_mod_cast hm
  refine h.two_zpow_le ?_
  rw [zpow_neg_one]
  linarith [reach_le m q]

theorem Owns.above_half (hm : 2 ^ 52 ≤ m) (h : Owns m q v) : 2 ^ (51 + q) ≤ v := by
  have hbits : (2 : ℚ) ^ 52 ≤ m := by exact_mod_cast hm
  refine h.two_zpow_le ?_
  rw [show (2 : ℚ) ^ (51 : Int) = 2 ^ 51 by norm_cast]
  linarith [reach_le m q]

theorem Owns.above (hm : 2 ^ 52 < m) (h : Owns m q v) : 2 ^ (52 + q) ≤ v := by
  have hbits : (2 : ℚ) ^ 52 + 1 ≤ m := by exact_mod_cast hm
  refine h.two_zpow_le ?_
  rw [show (2 : ℚ) ^ (52 : Int) = 2 ^ 52 by norm_cast]
  linarith [reach_le m q]

/-- Rounding measures a fraction with the exponent of the float that owns it, or, just below a
power of two, with the one before. -/
theorem Owns.exponent_cases (hm : InFormat m q) (h : Owns m q v) (he : FitsExponent v e) :
    e = q ∨ (m = 2 ^ 52 ∧ -1074 < q ∧ e = q - 1) := by
  have hleast := he.least
  have hle : e ≤ q := by
    rcases he.full with hleast' | hfull
    · have := hm.least
      omega
    · have := two_zpow_lt.1 (hfull.trans_lt (h.below hm))
      omega
  rcases hm.full with hq | hm52
  · omega
  · rcases Nat.eq_or_lt_of_le hm52 with heq | hlt
    · have := two_zpow_lt.1 ((h.above_half hm52).trans_lt he.below)
      omega
    · have := two_zpow_lt.1 ((h.above hlt).trans_lt he.below)
      omega

/-- Just below a power of two, rounding with the smaller exponent carries to that power. -/
theorem Owns.rounds_carried (hq : -1074 < q) (h : Owns (2 ^ 52) q v)
    (he : FitsExponent v (q - 1)) : Rounds (2 ^ 53) (v / 2 ^ (q - 1)) := by
  have hdouble : v / 2 ^ (q - 1) = 2 * (v / 2 ^ q) := by
    rw [zpow_sub_one₀ (by norm_num)]
    field_simp
  have hbelow : v / 2 ^ (q - 1) < 2 ^ (53 : Int) := by
    rw [div_lt_two_zpow, add_comm]
    exact he.below
  have hlow := h.low
  rw [reach, if_pos ⟨rfl, hq⟩] at hlow
  refine ⟨?_, ?_, fun hodd => by norm_num at hodd⟩
  · rw [hdouble]
    push_cast at hlow ⊢
    linarith
  · have : ((2 ^ 53 : Nat) : ℚ) = 2 ^ (53 : Int) := by norm_cast
    linarith

theorem Owns.ratioBits {num den : Nat} (hm : InFormat m q) (hpos : 0 < num) (hden : 0 < den)
    (h : Owns m q ((num : ℚ) / den)) : ratioBits num den = bitsOf m q := by
  have hfits := ulpExponent_fits hpos hden
  have hbits := hm.bits
  have hleast := hm.least
  have hgreatest := hm.greatest
  have hround {n : Nat} {e : Int} (hn : Rounds n ((num : ℚ) / den / 2 ^ e)) :
      divEven (scaleDown num den e).1 (scaleDown num den e).2 = n := by
    rw [scaleDown_eq]
    refine divEven_eq (measured_pos two_pos num hden e) ?_
    rw [measured_ratio]
    exact_mod_cast hn
  unfold Number.ratioBits bitsOf twoPow
  rw [if_neg (by omega)]
  dsimp only [Nat.pow_eq]
  rcases h.exponent_cases hm hfits with he | ⟨rfl, hq, he⟩
  · rw [he, hround h.rounds]
    omega
  · -- The coefficient is rounded up to 54 bits; added to the exponent below, it gives the bits.
    rw [he] at hfits ⊢
    rw [hround (h.rounds_carried hq hfits)]
    omega

end

theorem ofRatio_eq {x : Float} {negative : Bool} {m num den : Nat} {q : Int}
    (hx : parts x = .finite negative m q) (h : Number.ratioBits num den = bitsOf m q) :
    ofRatio negative num den = x := by
  obtain ⟨-, hbits⟩ := parts_finite hx
  unfold ofRatio twoPow
  dsimp only [Nat.pow_eq]
  rw [h, ← hbits, UInt64.ofNat_toNat, ofBits_toBits]

/-! ## Decimals -/

theorem digitCount_pos (n : Nat) : 0 < digitCount n := Nat.length_toDigits_pos

theorem digitCount_le_iff {n k : Nat} (hk : 0 < k) : digitCount n ≤ k ↔ n < 10 ^ k :=
  Nat.length_toDigits_le_iff (by decide) hk

theorem lt_pow_digitCount (n : Nat) : n < 10 ^ digitCount n :=
  (digitCount_le_iff (digitCount_pos n)).1 le_rfl

theorem pow_le_of_digitCount {n : Nat} (hn : 0 < n) : 10 ^ (digitCount n - 1) ≤ n := by
  rcases Nat.eq_zero_or_pos (digitCount n - 1) with hk | hk
  · rw [hk]
    exact hn
  · by_contra hlt
    have := (digitCount_le_iff hk).2 (not_le.1 hlt)
    omega

theorem eight_zpow (k : Int) : (2 : ℚ) ^ (3 * k) = 8 ^ k := by
  rw [zpow_mul]
  norm_num

section

variable {m c : Nat} {q e : Int}

theorem Owns.coefficient_pos (hpos : 0 < m) (h : Owns m q (c * 10 ^ e)) : 0 < c := by
  refine Nat.pos_of_ne_zero fun hzero => ?_
  have hhalf := h.half_le hpos
  rw [hzero, Nat.cast_zero, zero_mul] at hhalf
  exact absurd hhalf (not_le.2 (by positivity))

theorem Owns.size_le (hm : InFormat m q) (h : Owns m q (c * 10 ^ e)) (hc : 0 < c) :
    (digitCount c : Int) + e ≤ 400 := by
  by_contra hsize
  have hgreatest := hm.greatest
  have hcount := digitCount_pos c
  have hlarge : (10 : ℚ) ^ (400 : Int) ≤ c * 10 ^ e := by
    calc (10 : ℚ) ^ (400 : Int) ≤ 10 ^ ((digitCount c - 1 : Nat) + e) :=
          zpow_le_zpow_right₀ (by norm_num) (by omega)
      _ = (10 ^ (digitCount c - 1) : Nat) * 10 ^ e := by
          rw [zpow_add₀ (by norm_num)]
          norm_cast
      _ ≤ c * 10 ^ e := by
          gcongr
          exact pow_le_of_digitCount hc
  have hsmall : (c : ℚ) * 10 ^ e < 10 ^ (400 : Int) := by
    calc (c : ℚ) * 10 ^ e < 2 ^ (53 + q) := h.below hm
      _ ≤ 2 ^ (3 * 400 : Int) := zpow_le_zpow_right₀ (by norm_num) (by omega)
      _ = 8 ^ (400 : Int) := eight_zpow 400
      _ ≤ 10 ^ (400 : Int) := zpow_le_zpow_left₀ (by norm_num) (by norm_num) (by norm_num)
  exact absurd hlarge (not_le.2 hsmall)

theorem Owns.le_size (hm : InFormat m q) (hpos : 0 < m) (h : Owns m q (c * 10 ^ e)) :
    -400 ≤ (digitCount c : Int) + e := by
  by_contra hsize
  have hleast := hm.least
  have hsmall : (c : ℚ) * 10 ^ e < 10 ^ (-400 : Int) := by
    calc (c : ℚ) * 10 ^ e < (10 ^ digitCount c : Nat) * 10 ^ e := by
          gcongr
          exact lt_pow_digitCount c
      _ = 10 ^ ((digitCount c : Int) + e) := by
          rw [zpow_add₀ (by norm_num)]
          norm_cast
      _ ≤ 10 ^ (-400 : Int) := zpow_le_zpow_right₀ (by norm_num) (by omega)
  have hlarge : (10 : ℚ) ^ (-400 : Int) ≤ c * 10 ^ e := by
    calc (10 : ℚ) ^ (-400 : Int) ≤ 8 ^ (-400 : Int) := by
          rw [zpow_neg, zpow_neg]
          exact inv_anti₀ (by positivity)
            (zpow_le_zpow_left₀ (by norm_num) (by norm_num) (by norm_num))
      _ = 2 ^ (3 * -400 : Int) := (eight_zpow _).symm
      _ ≤ 2 ^ (-1 + q) := zpow_le_zpow_right₀ (by norm_num) (by omega)
      _ ≤ c * 10 ^ e := h.half_le hpos
  exact absurd hlarge (not_le.2 hsmall)

end

theorem ofDecimal_eq {x : Float} {negative : Bool} {m c : Nat} {q e : Int}
    (hx : parts x = .finite negative m q) (hpos : 0 < m) (h : Owns m q (c * 10 ^ e)) :
    ofDecimal negative c e = x := by
  obtain ⟨hm, -⟩ := parts_finite hx
  have hc := h.coefficient_pos hpos
  have hlow := h.le_size hm hpos
  have hhigh := h.size_le hm hc
  have hnum : 0 < (scaled 10 c e).1 := by
    unfold scaled
    split <;> positivity
  have hscaled : ofDecimal negative c e = ofRatio negative (scaled 10 c e).1 (scaled 10 c e).2 := by
    unfold ofDecimal scaled
    dsimp only [tenPow, Nat.pow_eq]
    rw [if_neg (by omega), if_neg (by omega)]
    split <;> rfl
  rw [hscaled]
  refine ofRatio_eq hx (Owns.ratioBits hm hnum (scaled_pos (by decide) c e) ?_)
  rw [scaled_ratio]
  exact_mod_cast h

theorem ofRatio_zero {x : Float} {negative : Bool} {q : Int}
    (hx : parts x = .finite negative 0 q) : ofRatio negative 0 1 = x := by
  obtain ⟨hm, -⟩ := parts_finite hx
  have hq : q = -1074 := by
    rcases hm.full with hq | hm
    · exact hq
    · omega
  exact ofRatio_eq hx (by rw [hq]; rfl)

end Number
end ScoringTree
