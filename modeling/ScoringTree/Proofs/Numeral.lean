import Mathlib.Data.List.TakeWhile
import Mathlib.Tactic.IntervalCases
import ScoringTree.Json.Reader

/-!
# ScoringTree.Proofs.Numeral

Numerals of JSON text, and the numbers that can be written as one.

* `Json.Closed`          — a text that cannot go on with a value in front of it.
* `Numeral.read_append`  — a numeral ends where such a text begins.
* `Numeral.read_suffix`  — what a numeral leaves is an end of the text.
* `Quantity.Legible`     — the text of a number is a numeral of that number.
* `Quantity.Fits.legible`
                         — so it is for every integer of 64 bits.
-/

namespace ScoringTree
namespace Json

/-- Nothing follows, or a character that ends whatever value stands in front of it. -/
def Closed (rest : List Char) : Prop := ∀ c ∈ rest.head?, c = ',' ∨ c = ']' ∨ c = '\x7d'

theorem closed_nil : Closed [] := by simp [Closed]

theorem closed_cons {c : Char} (h : c = ',' ∨ c = ']' ∨ c = '\x7d') (rest : List Char) :
    Closed (c :: rest) := by simpa [Closed] using h

theorem Closed.eq_nil_or_cons {rest : List Char} (h : Closed rest) :
    rest = [] ∨ ∃ tail, rest = ',' :: tail ∨ rest = ']' :: tail ∨ rest = '\x7d' :: tail := by
  cases rest with
  | nil => exact .inl rfl
  | cons c tail =>
    have hc : c = ',' ∨ c = ']' ∨ c = '\x7d' := h c rfl
    exact .inr ⟨tail, by simpa using hc⟩

/-! ## Numerals -/

section Numerals

variable {rest : List Char}

theorem takeWhile_isDigit_append (h : Closed rest) (cs : List Char) :
    (cs ++ rest).takeWhile Char.isDigit = cs.takeWhile Char.isDigit := by
  induction cs with
  | nil => rcases h.eq_nil_or_cons with rfl | ⟨tail, rfl | rfl | rfl⟩ <;> rfl
  | cons c cs ih => simp only [List.cons_append, List.takeWhile_cons, ih]

theorem dropWhile_isDigit_append (h : Closed rest) (cs : List Char) :
    (cs ++ rest).dropWhile Char.isDigit = cs.dropWhile Char.isDigit ++ rest := by
  induction cs with
  | nil => rcases h.eq_nil_or_cons with rfl | ⟨tail, rfl | rfl | rfl⟩ <;> rfl
  | cons c cs ih =>
    simp only [List.cons_append, List.dropWhile_cons, ih]
    split <;> rfl

theorem takeSign_append (h : Closed rest) (cs : List Char) :
    Number.takeSign (cs ++ rest) = ((Number.takeSign cs).1, (Number.takeSign cs).2 ++ rest) := by
  cases cs with
  | nil => rcases h.eq_nil_or_cons with rfl | ⟨tail, rfl | rfl | rfl⟩ <;> rfl
  | cons c cs =>
    by_cases hm : c = '-'
    · subst hm; rfl
    by_cases hp : c = '+'
    · subst hp; rfl
    simp [Number.takeSign, hm, hp]

namespace Numeral

theorem readFraction_of_ne {c : Char} (hc : c ≠ '.') (cs : List Char) :
    readFraction (c :: cs) = some ([], c :: cs) := by
  simp [readFraction, hc]

theorem read_of_ne {c : Char} (hc : c ≠ '-') (cs : List Char) :
    read (c :: cs) = readUnsigned false (c :: cs) := by
  simp [read, hc]

theorem readFraction_append (h : Closed rest) {cs digits after : List Char}
    (hr : readFraction cs = some (digits, after)) :
    readFraction (cs ++ rest) = some (digits, after ++ rest) := by
  cases cs with
  | nil =>
    obtain ⟨rfl, rfl⟩ : [] = digits ∧ [] = after := by simpa [readFraction] using hr
    rcases h.eq_nil_or_cons with rfl | ⟨tail, rfl | rfl | rfl⟩ <;> rfl
  | cons c cs =>
    by_cases hc : c = '.'
    · subst hc
      simp only [readFraction] at hr
      simp only [List.cons_append, readFraction, takeWhile_isDigit_append h,
        dropWhile_isDigit_append h]
      split at hr
      · simp at hr
      · rename_i hne
        simp only [Option.some.injEq, Prod.mk.injEq] at hr
        rw [if_neg hne, hr.1, hr.2]
    · obtain ⟨rfl, rfl⟩ : [] = digits ∧ c :: cs = after := by
        simpa [readFraction_of_ne hc] using hr
      exact readFraction_of_ne hc (cs ++ rest)

theorem readExponent_append (h : Closed rest) {cs after : List Char}
    {exponent : Option (Bool × List Char)} (hr : readExponent cs = some (exponent, after)) :
    readExponent (cs ++ rest) = some (exponent, after ++ rest) := by
  cases cs with
  | nil =>
    obtain ⟨rfl, rfl⟩ : none = exponent ∧ [] = after := by simpa [readExponent] using hr
    rcases h.eq_nil_or_cons with rfl | ⟨tail, rfl | rfl | rfl⟩ <;> rfl
  | cons c cs =>
    simp only [readExponent, List.cons_append, takeSign_append h, takeWhile_isDigit_append h,
      dropWhile_isDigit_append h] at hr ⊢
    split at hr
    · split at hr
      · simp at hr
      · simp_all
    · obtain ⟨rfl, rfl⟩ : none = exponent ∧ c :: cs = after := by simpa using hr
      simp_all

theorem readUnsigned_append (h : Closed rest) {negative : Bool} {cs after : List Char}
    {numeral : Numeral} (hr : readUnsigned negative cs = some (numeral, after)) :
    readUnsigned negative (cs ++ rest) = some (numeral, after ++ rest) := by
  simp only [readUnsigned, takeWhile_isDigit_append h, dropWhile_isDigit_append h] at hr ⊢
  split at hr
  · simp at hr
  · rename_i hwhole
    rw [if_neg hwhole]
    obtain ⟨fraction, hf, hr⟩ := Option.bind_eq_some_iff.mp hr
    obtain ⟨exponent, he, hr⟩ := Option.map_eq_some_iff.mp hr
    rw [readFraction_append h hf, Option.bind_some, readExponent_append h he]
    simp_all

/-- A numeral starts with a sign or a digit. -/
theorem read_cons {cs after : List Char} {numeral : Numeral}
    (hr : read cs = some (numeral, after)) :
    ∃ c tail, cs = c :: tail ∧ (c = '-' ∨ c.isDigit) := by
  cases cs with
  | nil => simp [read, readUnsigned] at hr
  | cons c tail =>
    refine ⟨c, tail, rfl, ?_⟩
    by_contra hc
    simp only [not_or] at hc
    simp [read, readUnsigned, hc.1, hc.2] at hr

/-- Text that cannot go on with a numeral changes nothing about the numeral in front of it. -/
theorem read_append (h : Closed rest) {cs after : List Char} {numeral : Numeral}
    (hr : read cs = some (numeral, after)) :
    read (cs ++ rest) = some (numeral, after ++ rest) := by
  obtain ⟨c, tail, rfl, -⟩ := read_cons hr
  by_cases hc : c = '-'
  · subst hc
    exact readUnsigned_append h hr
  · rw [read_of_ne hc] at hr
    rw [List.cons_append, read_of_ne hc]
    exact readUnsigned_append h hr

theorem readFraction_suffix {cs : List Char} {fraction : List Char × List Char}
    (hr : readFraction cs = some fraction) : fraction.2 <:+ cs := by
  cases cs with
  | nil =>
    obtain rfl : ([], []) = fraction := by simpa [readFraction] using hr
    exact List.suffix_rfl
  | cons c cs =>
    by_cases hc : c = '.'
    · subst hc
      simp only [readFraction] at hr
      split at hr
      · simp at hr
      · obtain rfl := Option.some.inj hr
        exact (List.dropWhile_suffix _).trans (List.suffix_cons _ _)
    · obtain rfl : ([], c :: cs) = fraction := by simpa [readFraction_of_ne hc] using hr
      exact List.suffix_rfl

theorem takeSign_suffix (cs : List Char) : (Number.takeSign cs).2 <:+ cs := by
  unfold Number.takeSign
  split
  · exact List.suffix_cons _ _
  · exact List.suffix_cons _ _
  · exact List.suffix_rfl

theorem readExponent_suffix {cs : List Char} {exponent : Option (Bool × List Char) × List Char}
    (hr : readExponent cs = some exponent) : exponent.2 <:+ cs := by
  cases cs with
  | nil =>
    obtain rfl : (none, []) = exponent := by simpa [readExponent] using hr
    exact List.suffix_rfl
  | cons c cs =>
    simp only [readExponent] at hr
    split at hr
    · split at hr
      · simp at hr
      · obtain rfl := Option.some.inj hr
        exact (List.dropWhile_suffix _).trans ((takeSign_suffix cs).trans (List.suffix_cons _ _))
    · obtain rfl := Option.some.inj hr
      exact List.suffix_rfl

theorem readUnsigned_suffix {negative : Bool} {cs after : List Char} {numeral : Numeral}
    (hr : readUnsigned negative cs = some (numeral, after)) : after <:+ cs := by
  simp only [readUnsigned] at hr
  split at hr
  · simp at hr
  · obtain ⟨fraction, hf, hr⟩ := Option.bind_eq_some_iff.mp hr
    obtain ⟨exponent, he, hr⟩ := Option.map_eq_some_iff.mp hr
    have hafter : exponent.2 = after := congrArg Prod.snd hr
    rw [← hafter]
    exact (readExponent_suffix he).trans
      ((readFraction_suffix hf).trans (List.dropWhile_suffix _))

theorem read_suffix {cs after : List Char} {numeral : Numeral}
    (hr : read cs = some (numeral, after)) : after <:+ cs := by
  obtain ⟨c, tail, rfl, -⟩ := read_cons hr
  by_cases hc : c = '-'
  · subst hc
    exact (readUnsigned_suffix hr).trans (List.suffix_cons _ _)
  · rw [read_of_ne hc] at hr
    exact readUnsigned_suffix hr

theorem le_ofDigitChars (cs : List Char) (acc : Nat) : acc ≤ Nat.ofDigitChars 10 cs acc := by
  induction cs generalizing acc with
  | nil => simp
  | cons c cs ih =>
    rw [Nat.ofDigitChars_cons]
    have := ih (10 * acc + (c.toNat - '0'.toNat))
    omega

/-- Digits whose number stays within the limit are all added. -/
theorem accumulate_eq {limit : Nat} {cs : List Char} {acc : Nat}
    (h : Nat.ofDigitChars 10 cs acc ≤ limit) :
    accumulate limit acc cs = (Nat.ofDigitChars 10 cs acc, cs.length) := by
  induction cs generalizing acc with
  | nil => simp [accumulate]
  | cons c cs ih =>
    rw [Nat.ofDigitChars_cons] at h ⊢
    have hnext := (le_ofDigitChars cs (10 * acc + (c.toNat - '0'.toNat))).trans h
    rw [accumulate, if_neg (by omega), ih h]
    rfl

theorem head?_toDigits {n : Nat} (h : 0 < n) : (Nat.toDigits 10 n).head? ≠ some '0' := by
  induction n using Nat.strongRecOn with
  | ind n ih =>
    by_cases hn : n < 10
    · rw [Nat.toDigits_of_lt_base hn]
      interval_cases n <;> decide
    · have hhead := ih (n / 10) (by omega) (by omega)
      obtain ⟨c, cs, hcs⟩ :=
        List.exists_cons_of_ne_nil (Nat.toDigits_ne_nil (n := n / 10) (b := 10))
      rw [Nat.toDigits_of_base_le (by omega) (by omega)]
      rw [hcs] at hhead ⊢
      simpa using hhead

theorem readUnsigned_toDigits (negative : Bool) (n : Nat) :
    readUnsigned negative (Nat.toDigits 10 n)
      = some (⟨negative, Nat.toDigits 10 n, [], none⟩, []) := by
  have hdigit : ∀ c ∈ Nat.toDigits 10 n, c.isDigit = true :=
    fun c hc => Nat.isDigit_of_mem_toDigits (by omega) (by omega) hc
  have hzero :
      ((Nat.toDigits 10 n).head? == some '0' && 1 < (Nat.toDigits 10 n).length) = false := by
    rcases Nat.eq_zero_or_pos n with rfl | hn
    · rfl
    · have hhead := head?_toDigits hn
      simp [hhead]
  simp only [readUnsigned, List.takeWhile_eq_self_iff.mpr hdigit,
    List.dropWhile_eq_nil_iff.mpr hdigit, hzero, Bool.or_false]
  rw [if_neg (by simp [Nat.toDigits_ne_nil])]
  rfl

theorem value?_toDigits {negative : Bool} {n : Nat} (h : n ≤ wordLimit) :
    value? ⟨negative, Nat.toDigits 10 n, [], none⟩ = some (integerValue negative n) := by
  have hsum : accumulate wordLimit 0 (Nat.toDigits 10 n) = (n, (Nat.toDigits 10 n).length) := by
    rw [accumulate_eq (by rwa [Nat.ofDigitChars_ten_toDigits]), Nat.ofDigitChars_ten_toDigits]
  simp [value?, hsum]

end Numeral

end Numerals

end Json

namespace Quantity

/-- A number of a kind that a text can give: an integer has at most 64 bits. -/
def Fits : Quantity → Prop
  | .integer z => -2 ^ 63 ≤ z ∧ z < 2 ^ 64
  | .float _ => True

/-- The text of the number is a numeral of this number. -/
def Legible (q : Quantity) : Prop :=
  ∃ numeral, Json.Numeral.read (Json.quantityChars q) = some (numeral, []) ∧
    numeral.value? = some q

open Json Json.Numeral in
theorem Fits.legible {z : Int} (h : (Quantity.integer z).Fits) : (Quantity.integer z).Legible := by
  have hz : -2 ^ 63 ≤ z ∧ z < 2 ^ 64 := h
  have hword : z.natAbs ≤ wordLimit := by
    change z.natAbs ≤ 2 ^ 64 - 1
    omega
  by_cases hneg : z < 0
  · have hchars : quantityChars (.integer z) = '-' :: Nat.toDigits 10 z.natAbs := by
      simp [quantityChars, integerChars, hneg, Number.decimalText]
    refine ⟨⟨true, Nat.toDigits 10 z.natAbs, [], none⟩, ?_, ?_⟩
    · rw [hchars]
      exact readUnsigned_toDigits true z.natAbs
    · have hbound : ¬(z.natAbs = 0 ∨ Number.twoPow 63 < z.natAbs) := by
        change ¬(z.natAbs = 0 ∨ 2 ^ 63 < z.natAbs)
        omega
      rw [value?_toDigits hword, integerValue, if_neg (by simp), if_neg hbound]
      congr 2
      omega
  · have hchars : quantityChars (.integer z) = Nat.toDigits 10 z.natAbs := by
      simp [quantityChars, integerChars, hneg, Number.decimalText]
    refine ⟨⟨false, Nat.toDigits 10 z.natAbs, [], none⟩, ?_, ?_⟩
    · rw [hchars]
      obtain ⟨c, cs, hcs⟩ :=
        List.exists_cons_of_ne_nil (Nat.toDigits_ne_nil (n := z.natAbs) (b := 10))
      have hc : c ≠ '-' := by
        rintro rfl
        have := Nat.isDigit_of_mem_toDigits (b := 10) (n := z.natAbs) (c := '-')
          (by omega) (by omega) (by simp [hcs])
        simp at this
      rw [hcs, read_of_ne hc, ← hcs]
      exact readUnsigned_toDigits false z.natAbs
    · rw [value?_toDigits hword, integerValue, if_pos (by simp)]
      congr 2
      omega

end Quantity

end ScoringTree
