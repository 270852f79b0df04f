import ScoringTree.Proofs.FloatText
import ScoringTree.Proofs.Order

/-!
# ScoringTree.Proofs.FloatQuotient

When a quotient of floats is finite.

A quotient is cut off behind as many bits as the format has, or one or two more, and what is cut off
is kept as two bits: whether it is half of a unit or more, and whether there is something else. To
decide whether rounding goes beyond the greatest float, the first of the two is enough, as the
coefficient of that float is odd.

* `magnitude`          — what a finite float stands for, its sign apart.
* `overflowBound`      — the least fraction that is rounded to an infinity.
* `Measures`           — an extended coefficient says what a fraction is.
* `bounded_round_iff`  — rounding stays within the format below the bound, and only there.
* `isFinite_div_iff`   — a quotient is finite if it is below the bound, or if it is taken by an
                         infinity.
-/

namespace ScoringTree
namespace Number

open Float.Model (Format UnpackedFloat totalExponent)
open Float.Model.UnpackedFloat

/-- What a finite float stands for, its sign apart; zero for all others. -/
def magnitude (x : Float) : ℚ :=
  match parts x with
  | .finite _ m q => m * 2 ^ q
  | _ => 0

/-- The middle between the greatest float and the one that would follow it. -/
def overflowBound : ℚ := (2 ^ 54 - 1) * 2 ^ (970 : Int)

/-! ## Parts of unpacked floats -/

section Unpacked

/-- The parts of an unpacked float. -/
def partsOf : UnpackedFloat → Parts
  | .notANumber => .nan
  | .infinity s => .infinite (s == .negative)
  | .zero s => .finite (s == .negative) 0 (-1074)
  | .finite s m e _ => .finite (s == .negative) m e

theorem toNat_unpackExponent (b : BitVec Format.binary64.numBits) :
    (unpackExponent b).toNat = b.toNat / 2 ^ 52 % 2 ^ 11 := by
  delta unpackExponent
  simp only [BitVec.toNat_cast, BitVec.extractLsb_toNat, Nat.shiftRight_eq_div_pow]

theorem toNat_unpackMantissa (b : BitVec Format.binary64.numBits) :
    (unpackMantissa b).toNat = b.toNat % 2 ^ 52 := by
  delta unpackMantissa
  simp only [BitVec.toNat_cast, BitVec.extractLsb_toNat, Nat.shiftRight_eq_div_pow]
  omega

theorem ofBitVec_unpackSign (b : BitVec Format.binary64.numBits) :
    (Sign.ofBitVec (unpackSign b) == .negative) = decide (2 ^ 63 ≤ b.toNat) := by
  have hb : b.toNat < 2 ^ 64 := b.isLt
  have hsign : (unpackSign b).toNat = b.toNat / 2 ^ 63 := by
    delta unpackSign
    simp only [BitVec.toNat_cast, BitVec.extractLsb_toNat, Nat.shiftRight_eq_div_pow]
    omega
  have hcases : ∀ s : BitVec 1, (Sign.ofBitVec s == .negative) = decide (1 ≤ s.toNat) := by decide
  rw [hcases, hsign]
  congr 1
  rw [eq_iff_iff]
  omega

theorem partsOf_unpack (b : BitVec Format.binary64.numBits) :
    partsOf (unpack Format.binary64 b) =
      if (unpackExponent b).toNat = 2047 then
        if (unpackMantissa b).toNat = 0 then .infinite (Sign.ofBitVec (unpackSign b) == .negative)
        else .nan
      else if (unpackExponent b).toNat = 0 then
        .finite (Sign.ofBitVec (unpackSign b) == .negative) (unpackMantissa b).toNat (-1074)
      else
        .finite (Sign.ofBitVec (unpackSign b) == .negative) (2 ^ 52 + (unpackMantissa b).toNat)
          ((unpackExponent b).toNat - 1075) := by
  delta unpack
  dsimp only
  by_cases hspecial : unpackExponent b = -1#_
  · have hones : (unpackExponent b).toNat = 2047 := by rw [hspecial]; rfl
    rw [if_pos hones, if_pos hspecial]
    by_cases hzero : unpackMantissa b = 0#_
    · rw [if_pos hzero, hzero]
      rfl
    · have hpos : (unpackMantissa b).toNat ≠ 0 := fun h => hzero (BitVec.eq_of_toNat_eq h)
      rw [if_neg hzero, if_neg hpos]
      rfl
  · have hones : (unpackExponent b).toNat ≠ 2047 := fun h => hspecial (BitVec.eq_of_toNat_eq h)
    rw [if_neg hones, if_neg hspecial]
    by_cases hsub : unpackExponent b = 0#_
    · rw [if_pos hsub, hsub]
      by_cases hzero : unpackMantissa b = 0#_
      · rw [dif_pos hzero, hzero]
        rfl
      · rw [dif_neg hzero]
        rfl
    · have hpos : (unpackExponent b).toNat ≠ 0 := fun h => hsub (BitVec.eq_of_toNat_eq h)
      have hvalue : (1#1 ++ unpackMantissa b).toNat = 2 ^ 52 + (unpackMantissa b).toNat := by
        rw [BitVec.toNat_append, ← Nat.shiftLeft_add_eq_or_of_lt (unpackMantissa b).isLt]
        rfl
      rw [if_neg hsub, if_neg hpos, ← hvalue]
      rfl

/-- The bit fields are those that unpacking looks at. -/
theorem parts_eq (x : Float) : parts x = partsOf x.toModel.unpack := by
  have hunpack : partsOf x.toModel.unpack =
      partsOf (unpack Format.binary64 x.toModel.toBits.toBitVec) := rfl
  rw [hunpack, partsOf_unpack, toNat_unpackExponent, toNat_unpackMantissa, ofBitVec_unpackSign]
  rfl

theorem isFinite_iff_exponent {x : Float} {b : BitVec Format.binary64.numBits}
    (hb : x.toModel.toBits.toBitVec = b) :
    isFinite x = true ↔ (unpackExponent b).toNat ≠ 2047 := by
  have hparts : parts x = partsOf (unpack Format.binary64 b) := by
    rw [parts_eq, ← hb]
    rfl
  rw [isFinite, hparts, partsOf_unpack]
  by_cases hones : (unpackExponent b).toNat = 2047
  · rw [if_pos hones]
    by_cases hzero : (unpackMantissa b).toNat = 0
    · simp [hones, hzero]
    · simp [hones, hzero]
  · rw [if_neg hones]
    by_cases hsub : (unpackExponent b).toNat = 0
    · simp [hsub]
    · simp [hones, hsub]

/-- The float is finite once it is packed: its exponent is not beyond that of the format. -/
def Bounded : UnpackedFloat → Prop
  | .zero _ => True
  | .finite _ _ e _ => e ≤ 971
  | _ => False

theorem isFinite_pack_iff {x : Float} {u : UnpackedFloat} (hx : x.toModel = .pack u) :
    isFinite x = true ↔ Bounded u := by
  have hb : x.toModel.toBits.toBitVec = pack Format.binary64 u := by rw [hx]; rfl
  rw [isFinite_iff_exponent hb]
  cases u with
  | infinity s =>
    have hexponent : unpackExponent (pack Format.binary64 (.infinity s)) = -1#_ :=
      unpackExponent_packComponents
    rw [hexponent]
    exact iff_of_false (fun h => h rfl) (fun h => h)
  | notANumber =>
    have hexponent : unpackExponent (pack Format.binary64 .notANumber) = -1#_ :=
      unpackExponent_packComponents
    rw [hexponent]
    exact iff_of_false (fun h => h rfl) (fun h => h)
  | zero s =>
    have hexponent : unpackExponent (pack Format.binary64 (.zero s)) = 0#_ :=
      unpackExponent_packComponents
    rw [hexponent]
    exact iff_of_true (Nat.zero_ne_add_one 2046) trivial
  | finite s m e hm =>
    rw [pack_finite]
    have hwithin : Bounded (.finite s m e hm) ↔ e ≤ 971 := Iff.rfl
    rw [hwithin]
    by_cases hlarge : 2048 ≤ (e + 1023 + 52).toNat + 1
    · have hexponent : unpackExponent (packedInfinity Format.binary64 s) = -1#_ :=
        unpackExponent_packComponents
      rw [if_pos hlarge, hexponent]
      have hvalue : (-1#11).toNat = 2047 := rfl
      constructor
      · intro h
        exact absurd hvalue h
      · intro h
        omega
    · rw [if_neg hlarge]
      have hbound : e ≤ 971 := by omega
      by_cases hnormal : m.log2 + 1 = 53
      · rw [if_pos hnormal, unpackExponent_packComponents]
        have hfield : (BitVec.ofNat 11 (e + 1023 + 52).toNat).toNat =
            (e + 1023 + 52).toNat % 2 ^ 11 := BitVec.toNat_ofNat _ _
        have hne : (BitVec.ofNat 11 (e + 1023 + 52).toNat).toNat ≠ 2047 := by omega
        exact ⟨fun _ => hbound, fun _ => hne⟩
      · rw [if_neg hnormal, unpackExponent_packComponents]
        exact ⟨fun _ => hbound, fun _ => by decide⟩

end Unpacked

/-! ## Rounding -/

section Rounding

/-- The coefficient is the fraction rounded down, and its next bit says whether a half or more is
left over. -/
structure Measures (em : ExtendedMantissa) (w : ℚ) : Prop where
  low : (em.mantissa : ℚ) ≤ w
  high : w < em.mantissa + 1
  half : em.roundBit = true ↔ (em.mantissa : ℚ) + 1 / 2 ≤ w

theorem mantissa_ofMantissaAndAccuracy (n : Nat) (accuracy : Accuracy) :
    (ExtendedMantissa.ofMantissaAndAccuracy n accuracy).mantissa = n := by
  cases accuracy with
  | exact => rfl
  | inexact order => cases order <;> rfl

theorem roundBit_accuracyOfFraction (n rest : Nat) {den : Nat} (hden : 0 < den) :
    (ExtendedMantissa.ofMantissaAndAccuracy n (accuracyOfFraction rest den)).roundBit = true ↔
      den ≤ 2 * rest := by
  have haccuracy : accuracyOfFraction rest den =
      if rest = 0 then .exact else .inexact (compare (2 * rest) den) := rfl
  rw [haccuracy]
  by_cases hzero : rest = 0
  · rw [if_pos hzero]
    exact ⟨fun h => (by cases h), fun h => absurd h (by omega)⟩
  · rw [if_neg hzero]
    rcases Nat.lt_trichotomy (2 * rest) den with hlt | heq | hgt
    · rw [Nat.compare_eq_lt.mpr hlt]
      exact ⟨fun h => (by cases h), fun h => absurd h (by omega)⟩
    · rw [Nat.compare_eq_eq.mpr heq]
      exact ⟨fun _ => heq.ge, fun _ => rfl⟩
    · rw [Nat.compare_eq_gt.mpr hgt]
      exact ⟨fun _ => hgt.le, fun _ => rfl⟩

theorem measures_quotient (num : Nat) {den : Nat} (hden : 0 < den) :
    Measures (.ofMantissaAndAccuracy (num / den) (accuracyOfFraction (num % den) den))
      ((num : ℚ) / den) := by
  have hden' : (0 : ℚ) < den := by exact_mod_cast hden
  have hvalue : (num : ℚ) / den = (num / den : Nat) + ((num % den : Nat) : ℚ) / den := by
    rw [div_eq_iff hden'.ne', add_mul, div_mul_cancel₀ _ hden'.ne']
    exact_mod_cast (Nat.div_add_mod' num den).symm
  have hrest : ((num % den : Nat) : ℚ) / den < 1 := by
    rw [div_lt_one hden']
    exact_mod_cast Nat.mod_lt num hden
  have hpos : (0 : ℚ) ≤ ((num % den : Nat) : ℚ) / den := by positivity
  have hhalf : (1 / 2 : ℚ) ≤ ((num % den : Nat) : ℚ) / den ↔ den ≤ 2 * (num % den) := by
    rw [le_div_iff₀ hden', div_mul_eq_mul_div, one_mul, div_le_iff₀ two_pos, mul_comm]
    exact_mod_cast Iff.rfl
  rw [hvalue]
  refine ⟨?_, ?_, ?_⟩
  · rw [mantissa_ofMantissaAndAccuracy]
    linarith
  · rw [mantissa_ofMantissaAndAccuracy]
    linarith
  · rw [mantissa_ofMantissaAndAccuracy, roundBit_accuracyOfFraction _ _ hden, ← hhalf]
    exact (add_le_add_iff_left _).symm

theorem Measures.shiftRightOne {em : ExtendedMantissa} {w : ℚ} (h : Measures em w) :
    Measures em.shiftRightOne (w / 2) := by
  obtain ⟨hlow, hhigh, -⟩ := h
  have hmantissa : em.shiftRightOne.mantissa = em.mantissa / 2 := rfl
  have hbit : em.shiftRightOne.roundBit = true ↔ em.mantissa % 2 ≠ 0 := bne_iff_ne
  have hparts : (em.mantissa : ℚ) = 2 * (em.mantissa / 2 : Nat) + (em.mantissa % 2 : Nat) := by
    exact_mod_cast (Nat.div_add_mod em.mantissa 2).symm
  rw [hparts] at hlow hhigh
  rcases Nat.mod_two_eq_zero_or_one em.mantissa with hmod | hmod
  · rw [hmod] at hlow hhigh
    push_cast at hlow hhigh
    refine ⟨?_, ?_, ?_⟩
    · rw [hmantissa]
      linarith
    · rw [hmantissa]
      linarith
    · rw [hbit, hmantissa]
      exact ⟨fun hodd => absurd hmod hodd, fun hhalf => by linarith⟩
  · rw [hmod] at hlow hhigh
    push_cast at hlow hhigh
    refine ⟨?_, ?_, ?_⟩
    · rw [hmantissa]
      linarith
    · rw [hmantissa]
      linarith
    · rw [hbit, hmantissa]
      exact ⟨fun _ => by linarith, fun _ => by omega⟩

theorem Measures.shiftRight {em : ExtendedMantissa} {w : ℚ} (h : Measures em w) (k : Nat) :
    Measures (em >>> k) (w / 2 ^ k) := by
  induction k with
  | zero =>
    rw [pow_zero, div_one]
    exact h
  | succ k ih =>
    have hstep : em >>> (k + 1) = (em >>> k).shiftRightOne := rfl
    rw [hstep, pow_succ, ← div_div]
    exact ih.shiftRightOne

theorem roundedMantissa_bounds (em : ExtendedMantissa) :
    em.mantissa ≤ em.roundedMantissa ∧ em.roundedMantissa ≤ em.mantissa + 1 := by
  obtain ⟨m, roundBit, stickyBit⟩ := em
  cases roundBit with
  | false =>
    have hsame : (ExtendedMantissa.mk m false stickyBit).roundedMantissa = m := by
      cases stickyBit <;> rfl
    rw [hsame]
    exact ⟨le_rfl, Nat.le_succ m⟩
  | true =>
    cases stickyBit with
    | false =>
      have htie : (ExtendedMantissa.mk m true false).roundedMantissa = m + m % 2 := rfl
      rw [htie]
      dsimp only
      omega
    | true => exact ⟨Nat.le_succ m, le_rfl⟩

/-- An odd coefficient goes up exactly where a half or more is left over. -/
theorem roundedMantissa_odd {em : ExtendedMantissa} (h : em.mantissa % 2 = 1) :
    em.roundedMantissa = em.mantissa + 1 ↔ em.roundBit = true := by
  obtain ⟨m, roundBit, stickyBit⟩ := em
  cases roundBit with
  | false =>
    have hsame : (ExtendedMantissa.mk m false stickyBit).roundedMantissa = m := by
      cases stickyBit <;> rfl
    rw [hsame]
    exact ⟨fun heq => absurd heq (Nat.ne_of_lt (Nat.lt_succ_self m)), fun hbit => by cases hbit⟩
  | true =>
    cases stickyBit with
    | false =>
      have htie : (ExtendedMantissa.mk m true false).roundedMantissa = m + m % 2 := rfl
      exact ⟨fun _ => rfl, fun _ => by rw [htie, h]⟩
    | true => exact ⟨fun _ => rfl, fun _ => rfl⟩

theorem mantissa_shiftRight (em : ExtendedMantissa) (k : Nat) :
    (em >>> k).mantissa = em.mantissa / 2 ^ k := by
  induction k with
  | zero => exact (Nat.div_one _).symm
  | succ k ih =>
    have hstep : (em >>> (k + 1)).mantissa = (em >>> k).mantissa / 2 := rfl
    rw [hstep, ih, Nat.div_div_eq_div_mul, Nat.pow_succ]

/-- The exponent that the format has for a coefficient at an exponent. -/
def target (m : Nat) (e : Int) : Int := max (m.log2 + 1 + e - 53) (-1074)

/-- How many bits of a coefficient are too many for the format. -/
def surplus (m : Nat) (e : Int) : Nat := (target m e - e).toNat

/-- The coefficient once its surplus is rounded. -/
def rounded (n : Nat) (t : Int) (accuracy : Accuracy) : Nat :=
  (ExtendedMantissa.ofMantissaAndAccuracy n accuracy >>> surplus n t).roundedMantissa

/-- Rounding may make one bit too many, so that there is a surplus again. -/
theorem bounded_round (s : Sign) {n : Nat} {t e : Int} {accuracy : Accuracy}
    (he : t + surplus n t = e) :
    Bounded (roundWithAccuracy Format.binary64 s n t accuracy) ↔
      rounded n t accuracy / 2 ^ surplus (rounded n t accuracy) e = 0 ∨
        e + surplus (rounded n t accuracy) e ≤ 971 := by
  subst he
  let em := ExtendedMantissa.ofMantissaAndAccuracy (rounded n t accuracy) .exact >>>
    surplus (rounded n t accuracy) (t + surplus n t)
  have hfinal : em.mantissa =
      rounded n t accuracy / 2 ^ surplus (rounded n t accuracy) (t + surplus n t) := by
    rw [mantissa_shiftRight, mantissa_ofMantissaAndAccuracy]
  have hround : roundWithAccuracy Format.binary64 s n t accuracy =
      if h : em.mantissa = 0 then .zero s
      else .finite s em.mantissa
        (t + surplus n t + surplus (rounded n t accuracy) (t + surplus n t))
        (Nat.pos_of_ne_zero h) := rfl
  rw [hround, ← hfinal]
  by_cases hzero : em.mantissa = 0
  · rw [dif_pos hzero]
    exact ⟨fun _ => .inl hzero, fun _ => trivial⟩
  · rw [dif_neg hzero]
    exact ⟨fun h => .inr h, fun h => h.resolve_left hzero⟩

theorem surplus_of_lt {m : Nat} {e : Int} (hm : m < 2 ^ 53) (he : -1074 ≤ e) :
    surplus m e = 0 := by
  have hlog : m.log2 < 53 := by
    rcases Nat.eq_zero_or_pos m with rfl | hpos
    · decide
    · exact (Nat.log2_lt hpos.ne').mpr hm
  unfold surplus target
  omega

theorem surplus_carried {e : Int} (he : -1074 ≤ e) : surplus (2 ^ 53) e = 1 := by
  have hlog : (2 ^ 53 : Nat).log2 = 53 := Nat.log2_two_pow
  unfold surplus target
  rw [hlog]
  omega

/-- A coefficient of the format stays where it is; one bit more carries to the next exponent. -/
theorem bounded_round_of_le (s : Sign) {n : Nat} {t e : Int} {accuracy : Accuracy}
    (he : t + surplus n t = e) (hleast : -1074 ≤ e) (hpos : 0 < rounded n t accuracy ∨ e ≤ 970)
    (hle : rounded n t accuracy ≤ 2 ^ 53) :
    Bounded (roundWithAccuracy Format.binary64 s n t accuracy) ↔
      e ≤ 970 ∨ e = 971 ∧ rounded n t accuracy ≠ 2 ^ 53 := by
  rw [bounded_round s he]
  generalize rounded n t accuracy = m at *
  rcases Nat.eq_or_lt_of_le hle with rfl | hlt
  · rw [surplus_carried hleast]
    simp only [ne_eq, not_true_eq_false, and_false, or_false]
    omega
  · rw [surplus_of_lt hlt hleast, pow_zero, Nat.div_one]
    omega

variable {n : Nat} {t : Int}

/-- The first shift leads to the exponent of the format. -/
theorem add_surplus (hbits : t ≤ -1074 ∨ 2 ^ 52 ≤ n) : t + surplus n t = target n t := by
  have hle : t ≤ target n t := by
    unfold target
    rcases hbits with ht | hn
    · omega
    · have hlog : 52 ≤ n.log2 := (Nat.le_log2 (by omega)).mpr hn
      omega
  unfold surplus
  omega

theorem lt_of_surplus (n : Nat) (t : Int) : n / 2 ^ surplus n t < 2 ^ 53 := by
  have hexponent : n.log2 + 1 ≤ 53 + surplus n t := by
    unfold surplus target
    omega
  rw [Nat.div_lt_iff_lt_mul (Nat.two_pow_pos _), ← Nat.pow_add]
  exact Nat.lt_log2_self.trans_le (Nat.pow_le_pow_right two_pos hexponent)

/-- Above the least exponent, no bit of the coefficient is left empty. -/
theorem le_of_surplus (hbits : t ≤ -1074 ∨ 2 ^ 52 ≤ n) (htarget : -1074 < target n t) :
    2 ^ 52 ≤ n / 2 ^ surplus n t := by
  have hlog : surplus n t + 52 = n.log2 := by
    have hadd := add_surplus hbits
    unfold target at hadd htarget
    omega
  have hn : n ≠ 0 := by
    rintro rfl
    rw [show (0 : Nat).log2 = 0 from rfl] at hlog
    omega
  rw [Nat.le_div_iff_mul_le (Nat.two_pow_pos _), ← Nat.pow_add, Nat.add_comm, hlog]
  exact Nat.log2_self_le hn

/-- A coefficient of 53 bits is rounded to one of 54 from half a unit below that on. -/
theorem Measures.carries_iff {em : ExtendedMantissa} {w : ℚ} (h : Measures em w)
    (hlt : em.mantissa < 2 ^ 53) : em.roundedMantissa = 2 ^ 53 ↔ 2 ^ 53 - 1 / 2 ≤ w := by
  have hbounds := roundedMantissa_bounds em
  constructor
  · intro hcarry
    have hmantissa : em.mantissa + 1 = 2 ^ 53 := by omega
    have hbit := (roundedMantissa_odd (by omega)).mp (hcarry.trans hmantissa.symm)
    have hcast : (em.mantissa : ℚ) + 1 = 2 ^ 53 := by exact_mod_cast hmantissa
    linarith [h.half.mp hbit]
  · intro hhalf
    have hcast : (2 ^ 53 : ℚ) < em.mantissa + 2 := by linarith [h.high]
    have hmantissa : em.mantissa + 1 = 2 ^ 53 := by
      have : 2 ^ 53 < em.mantissa + 2 := by exact_mod_cast hcast
      omega
    have hcast : (em.mantissa : ℚ) + 1 = 2 ^ 53 := by exact_mod_cast hmantissa
    have hbit : em.roundBit = true := h.half.mpr (by linarith)
    exact ((roundedMantissa_odd (by omega)).mpr hbit).trans hmantissa

/-- Rounding stays within the format below the bound, and only there. -/
theorem bounded_round_iff (s : Sign) {accuracy : Accuracy} {w : ℚ}
    (hmeasures : Measures (.ofMantissaAndAccuracy n accuracy) w) (hbits : t ≤ -1074 ∨ 2 ^ 52 ≤ n) :
    Bounded (roundWithAccuracy Format.binary64 s n t accuracy) ↔ w * 2 ^ t < overflowBound := by
  have he := add_surplus hbits
  have hleast : -1074 ≤ target n t := le_max_right _ _
  have hshifted := hmeasures.shiftRight (surplus n t)
  have hmantissa := mantissa_shiftRight (.ofMantissaAndAccuracy n accuracy) (surplus n t)
  rw [mantissa_ofMantissaAndAccuracy] at hmantissa
  have hlt := lt_of_surplus n t
  have hbounds := roundedMantissa_bounds
    (ExtendedMantissa.ofMantissaAndAccuracy n accuracy >>> surplus n t)
  have hcarries := hshifted.carries_iff (hmantissa.trans_lt hlt)
  have hfull := le_of_surplus hbits
  rw [← rounded] at hbounds hcarries
  rw [hmantissa] at hbounds
  have hvalue : w * 2 ^ t = w / 2 ^ surplus n t * 2 ^ target n t := by
    rw [← he, zpow_add₀ two_ne_zero, zpow_natCast]
    field_simp
  obtain ⟨hlow, hhigh, -⟩ := hshifted
  rw [hmantissa] at hlow hhigh
  rw [hvalue]
  generalize w / 2 ^ surplus n t = v at *
  generalize n / 2 ^ surplus n t = m at *
  rw [bounded_round_of_le s he hleast (by omega) (by omega)]
  generalize target n t = e at *
  have hbelow : v < 2 ^ 53 := by
    have : (m : ℚ) + 1 ≤ 2 ^ 53 := by exact_mod_cast hlt
    linarith
  have hnonneg : (0 : ℚ) ≤ v := le_trans (by positivity) hlow
  rcases lt_trichotomy e 971 with hsmall | rfl | hlarge
  · -- all that is below the exponent of the greatest float is far from the bound
    have hpow : (2 : ℚ) ^ e ≤ 2 ^ (970 : Int) := zpow_le_zpow_right₀ one_le_two (by omega)
    have hpos : (0 : ℚ) < 2 ^ (970 : Int) := by positivity
    refine iff_of_true (.inl (by omega)) ?_
    calc v * 2 ^ e ≤ v * 2 ^ (970 : Int) := mul_le_mul_of_nonneg_left hpow hnonneg
      _ < (2 ^ 54 - 1) * 2 ^ (970 : Int) := mul_lt_mul_of_pos_right (by linarith) hpos
  · have hbound : overflowBound = (2 ^ 53 - 1 / 2) * 2 ^ (971 : Int) := by
      rw [overflowBound, show (971 : Int) = 970 + 1 from rfl, zpow_add₀ two_ne_zero]
      ring
    rw [hbound, mul_lt_mul_iff_left₀ (by positivity), ← not_le, ← hcarries]
    simp
  · have hfull : (2 : ℚ) ^ 52 ≤ m := by exact_mod_cast hfull (by omega)
    have hpow : (2 : ℚ) ^ (972 : Int) ≤ 2 ^ e := zpow_le_zpow_right₀ one_le_two (by omega)
    refine iff_of_false (by omega) (not_lt.mpr ?_)
    calc overflowBound ≤ 2 ^ 52 * 2 ^ (972 : Int) := by
          rw [overflowBound, show (972 : Int) = 2 + 970 from rfl, zpow_add₀ two_ne_zero,
            ← mul_assoc]
          exact mul_le_mul_of_nonneg_right (by norm_num) (by positivity)
      _ ≤ v * 2 ^ e := mul_le_mul (hfull.trans hlow) hpow (by positivity) hnonneg

end Rounding


/-! ## Quotients -/

section Quotient

variable {m m' : Nat} {e e' : Int}

/-- The exponent at which a quotient is taken. -/
def quotientExponent (m : Nat) (e : Int) (m' : Nat) (e' : Int) : Int :=
  min (e - e') (max (m.log2 + 1 + e - (m'.log2 + 1 + e') - 53) (-1074))

/-- The coefficient of the dividend, moved so far that the quotient has enough bits. -/
def dividend (m : Nat) (e : Int) (m' : Nat) (e' : Int) : Nat :=
  m <<< (e - e' - quotientExponent m e m' e').toNat

theorem quotient_bits (hm : 0 < m) (hm' : 0 < m') :
    quotientExponent m e m' e' ≤ -1074 ∨ 2 ^ 52 ≤ dividend m e m' e' / m' := by
  by_cases hleast : quotientExponent m e m' e' ≤ -1074
  · exact .inl hleast
  · right
    have hshift : m'.log2 + 53 ≤ m.log2 + (e - e' - quotientExponent m e m' e').toNat := by
      unfold quotientExponent at hleast ⊢
      omega
    rw [Nat.le_div_iff_mul_le hm', dividend, Nat.shiftLeft_eq]
    calc 2 ^ 52 * m' ≤ 2 ^ 52 * 2 ^ (m'.log2 + 1) :=
          Nat.mul_le_mul_left _ (Nat.le_of_lt Nat.lt_log2_self)
      _ = 2 ^ (m'.log2 + 53) := by rw [← Nat.pow_add, Nat.add_comm]
      _ ≤ 2 ^ (m.log2 + (e - e' - quotientExponent m e m' e').toNat) :=
          Nat.pow_le_pow_right two_pos hshift
      _ = 2 ^ m.log2 * 2 ^ (e - e' - quotientExponent m e m' e').toNat := Nat.pow_add _ _ _
      _ ≤ m * 2 ^ (e - e' - quotientExponent m e m' e').toNat :=
          Nat.mul_le_mul_right _ (Nat.log2_self_le hm.ne')

theorem dividend_value (m : Nat) (e : Int) (m' : Nat) (e' : Int) :
    (dividend m e m' e' : ℚ) * 2 ^ quotientExponent m e m' e' = m * 2 ^ (e - e') := by
  have hle : quotientExponent m e m' e' ≤ e - e' := min_le_left _ _
  have hsplit : e - e' = (e - e' - quotientExponent m e m' e').toNat +
      quotientExponent m e m' e' := by omega
  rw [dividend, Nat.shiftLeft_eq, Nat.cast_mul, Nat.cast_pow, Nat.cast_ofNat, mul_assoc,
    ← zpow_natCast, ← zpow_add₀ two_ne_zero, ← hsplit]

theorem bounded_div_iff (s s' : Sign) (hm : 0 < m) (hm' : 0 < m') :
    Bounded (div Format.binary64 (.finite s m e hm) (.finite s' m' e' hm')) ↔
      (m : ℚ) * 2 ^ e < overflowBound * (m' * 2 ^ e') := by
  have hdiv : div Format.binary64 (.finite s m e hm) (.finite s' m' e' hm') =
      roundWithAccuracy Format.binary64 (s / s') (dividend m e m' e' / m')
        (quotientExponent m e m' e') (accuracyOfFraction (dividend m e m' e' % m') m') := rfl
  have hcast : (0 : ℚ) < m' := by exact_mod_cast hm'
  have hvalue : (dividend m e m' e' : ℚ) / m' * 2 ^ quotientExponent m e m' e' =
      m * 2 ^ e / (m' * 2 ^ e') := by
    rw [div_mul_eq_mul_div, dividend_value, zpow_sub₀ two_ne_zero]
    field_simp
  rw [hdiv, bounded_round_iff _ (measures_quotient _ hm') (quotient_bits hm hm'), hvalue,
    div_lt_iff₀ (by positivity)]

/-- A quotient by a positive float is finite if it is below the bound, or taken by an infinity. -/
theorem isFinite_div_iff {x y : Float} (hy : 0.0 < y) :
    isFinite (x / y) = true ↔
      isFinite x = true ∧ (isFinite y = true → magnitude x < overflowBound * magnitude y) := by
  have hdiv : (x / y).toModel = .pack (div Format.binary64 x.toModel.unpack y.toModel.unpack) := rfl
  have hzero : (0.0 : Float).toModel.unpack = .zero .positive := rfl
  have hbound : (0 : ℚ) < overflowBound := by
    rw [overflowBound]
    exact mul_pos (by norm_num) (by positivity)
  rw [lt_iff_modelOrder?, modelOrder?, hzero] at hy
  rw [isFinite_pack_iff hdiv, isFinite, isFinite, magnitude, magnitude, parts_eq x, parts_eq y]
  cases hyu : y.toModel.unpack with
  | notANumber =>
    rw [hyu] at hy
    cases hy
  | zero s =>
    rw [hyu] at hy
    cases hy
  | infinity s =>
    cases x.toModel.unpack with
    | notANumber => exact iff_of_false (fun h => h) fun h => Bool.false_ne_true h.1
    | infinity s' => exact iff_of_false (fun h => h) fun h => Bool.false_ne_true h.1
    | zero s' => exact iff_of_true trivial ⟨rfl, fun h => absurd h Bool.false_ne_true⟩
    | finite s' m e hm => exact iff_of_true trivial ⟨rfl, fun h => absurd h Bool.false_ne_true⟩
  | finite s m' e' hm' =>
    have hcast : (0 : ℚ) < m' * 2 ^ e' := mul_pos (by exact_mod_cast hm') (by positivity)
    cases x.toModel.unpack with
    | notANumber => exact iff_of_false (fun h => h) fun h => Bool.false_ne_true h.1
    | infinity s' => exact iff_of_false (fun h => h) fun h => Bool.false_ne_true h.1
    | zero s' =>
      refine iff_of_true trivial ⟨rfl, fun _ => ?_⟩
      dsimp only [partsOf]
      rw [Nat.cast_zero, zero_mul]
      exact mul_pos hbound hcast
    | finite s' m e hm =>
      rw [bounded_div_iff s' s hm hm']
      dsimp only [partsOf]
      exact ⟨fun h => ⟨rfl, fun _ => h⟩, fun h => h.2 rfl⟩

end Quotient

end Number
end ScoringTree
