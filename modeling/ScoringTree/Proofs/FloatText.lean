import ScoringTree.Number.Layout
import ScoringTree.Proofs.HelperReading
import ScoringTree.Proofs.ShortestDigits

/-!
# ScoringTree.Proofs.FloatText

Every finite float is read back from its text.

A layout places the point before, inside or behind the digits, or behind the first of them with an
exponent. Each of these texts is a numeral of the number that the digits stand for, and the float
owns that number.

* `Spells`                     — a text is a numeral of a number.
* `spells_digitsText`          — so is the text of digits, in every layout.
* `readFloatChars_floatChars`  — so a finite float is read back.
* `isDecimalChar_floatChars`   — and written in the characters of numerals.
-/

namespace ScoringTree

namespace Text

/-- A run of characters ends where one follows that is not of its kind. -/
theorem span_append {p : Char → Bool} {run rest : List Char} (hrun : ∀ c ∈ run, p c = true)
    (hrest : ∀ c ∈ rest.head?, p c = false) :
    (run ++ rest).takeWhile p = run ∧ (run ++ rest).dropWhile p = rest := by
  rw [List.takeWhile_append_of_pos hrun, List.dropWhile_append_of_pos hrun]
  cases rest with
  | nil => exact ⟨List.append_nil run, rfl⟩
  | cons c rest =>
    have hc : p c = false := hrest c rfl
    rw [List.takeWhile_cons_of_neg (by simp [hc]), List.dropWhile_cons_of_neg (by simp [hc]),
      List.append_nil]
    exact ⟨rfl, rfl⟩

end Text

namespace Number

/-! ## Digits -/

theorem digitsValue_eq (ds : List Char) : digitsValue ds = Nat.ofDigitChars 10 ds 0 := rfl

theorem digitsValue_decimalText (n : Nat) : digitsValue (decimalText n) = n :=
  Nat.ofDigitChars_ten_toDigits

theorem digitsValue_zeros (ds : List Char) (k : Nat) :
    digitsValue (ds ++ List.replicate k '0') = 10 ^ k * digitsValue ds := by
  rw [digitsValue_eq, Nat.ofDigitChars_append, Nat.ofDigitChars_replicate_zero, digitsValue_eq]

theorem digitsValue_leading (k : Nat) (ds : List Char) :
    digitsValue (List.replicate k '0' ++ ds) = digitsValue ds := by
  rw [digitsValue_eq, Nat.ofDigitChars_append, Nat.ofDigitChars_replicate_zero, Nat.mul_zero,
    digitsValue_eq]

/-- Nothing but decimal digits. -/
def AllDigits (cs : List Char) : Prop := ∀ c ∈ cs, c.isDigit = true

theorem allDigits_decimalText (n : Nat) : AllDigits (decimalText n) :=
  fun _ hc => Nat.isDigit_of_mem_toDigits (by decide) (by decide) hc

theorem allDigits_zeros (k : Nat) : AllDigits (List.replicate k '0') := by
  intro c hc
  rw [List.eq_of_mem_replicate hc]
  rfl

theorem AllDigits.append {cs ds : List Char} (hcs : AllDigits cs) (hds : AllDigits ds) :
    AllDigits (cs ++ ds) := by
  intro c hc
  rcases List.mem_append.1 hc with hc | hc
  · exact hcs c hc
  · exact hds c hc

theorem decimalText_ne_nil (n : Nat) : decimalText n ≠ [] := Nat.toDigits_ne_nil

/-! ## Reading -/

section Reading

variable (negative : Bool) {whole part tail : List Char} {e : Int}

theorem readUnsigned_whole (hwhole : AllDigits whole) (hne : whole ≠ [])
    (htail : ∀ c ∈ tail.head?, c.isDigit = false ∧ c ≠ '.') (he : readExponent tail = some e) :
    readUnsigned negative (whole ++ tail) = some (ofDecimal negative (digitsValue whole) e) := by
  obtain ⟨htake, hdrop⟩ := Text.span_append hwhole fun c hc => (htail c hc).1
  have hfraction : Helper.fraction Char.isDigit tail = ([], tail) := by
    cases tail with
    | nil => rfl
    | cons c tail =>
      have hc : c ≠ '.' := (htail c rfl).2
      simp [Helper.fraction, hc]
  rw [Helper.readUnsigned_eq]
  dsimp only
  rw [htake, hdrop, hfraction]
  simp [hne, he]

theorem readUnsigned_fraction (hwhole : AllDigits whole) (hne : whole ≠ []) (hpart : AllDigits part)
    (htail : ∀ c ∈ tail.head?, c.isDigit = false) (he : readExponent tail = some e) :
    readUnsigned negative (whole ++ '.' :: (part ++ tail)) =
      some (ofDecimal negative (digitsValue (whole ++ part)) (e - part.length)) := by
  have hpoint : ∀ c ∈ ('.' :: (part ++ tail)).head?, c.isDigit = false := by simp
  obtain ⟨htake, hdrop⟩ := Text.span_append hwhole hpoint
  obtain ⟨htake', hdrop'⟩ := Text.span_append hpart htail
  rw [Helper.readUnsigned_eq]
  dsimp only
  rw [htake, hdrop, Helper.fraction, htake', hdrop']
  simp [hne, he]

end Reading

theorem takeSign_of_isDigit {c : Char} (hc : c.isDigit = true) (cs : List Char) :
    takeSign (c :: cs) = (false, c :: cs) := by
  unfold takeSign
  split <;> simp_all

theorem AllDigits.takeSign {cs : List Char} (hcs : AllDigits cs) (hne : cs ≠ []) :
    takeSign cs = (false, cs) := by
  cases cs with
  | nil => exact absurd rfl hne
  | cons c cs => exact takeSign_of_isDigit (hcs c List.mem_cons_self) cs

/-! ## The text of digits -/

/-- A text, without a sign, of a decimal equal to `v`. -/
def Spells (cs : List Char) (v : ℚ) : Prop :=
  ∃ c : Nat, ∃ e : Int, (c : ℚ) * 10 ^ e = v ∧
    ∀ negative, readUnsigned negative cs = some (ofDecimal negative c e)

section Spelling

variable {whole part tail : List Char} {e : Int}

theorem spells_whole (hwhole : AllDigits whole) (hne : whole ≠ [])
    (htail : ∀ c ∈ tail.head?, c.isDigit = false ∧ c ≠ '.') (he : readExponent tail = some e) :
    Spells (whole ++ tail) (digitsValue whole * 10 ^ e) :=
  ⟨_, _, rfl, fun negative => readUnsigned_whole negative hwhole hne htail he⟩

theorem spells_fraction (hwhole : AllDigits whole) (hne : whole ≠ []) (hpart : AllDigits part)
    (htail : ∀ c ∈ tail.head?, c.isDigit = false) (he : readExponent tail = some e) :
    Spells (whole ++ '.' :: (part ++ tail))
      (digitsValue (whole ++ part) * 10 ^ (e - part.length)) :=
  ⟨_, _, rfl, fun negative => readUnsigned_fraction negative hwhole hne hpart htail he⟩

/-- Digits without an exponent, and perhaps without a point. -/
theorem spells_plain (hwhole : AllDigits whole) (hne : whole ≠ []) :
    Spells whole (digitsValue whole) := by
  have hend : ∀ c ∈ ([] : List Char).head?, c.isDigit = false ∧ c ≠ '.' := by simp
  have h := spells_whole hwhole hne hend rfl
  rwa [List.append_nil, zpow_zero, mul_one] at h

theorem spells_pointed (hwhole : AllDigits whole) (hne : whole ≠ []) (hpart : AllDigits part) :
    Spells (whole ++ '.' :: part) (digitsValue (whole ++ part) * 10 ^ (-(part.length : Int))) := by
  have hend : ∀ c ∈ ([] : List Char).head?, c.isDigit = false := by simp
  have h := spells_fraction hwhole hne hpart hend rfl
  rwa [List.append_nil, zero_sub] at h

theorem spells_behind {digits : List Char} (hdigits : AllDigits digits) (k : Nat) :
    Spells ('0' :: '.' :: (List.replicate k '0' ++ digits))
      (digitsValue digits * 10 ^ (-(k + digits.length : Int))) := by
  have h := spells_pointed (allDigits_zeros 1) (by simp) ((allDigits_zeros k).append hdigits)
  rwa [digitsValue_leading, digitsValue_leading, List.length_append, List.length_replicate,
    Nat.cast_add] at h

theorem spells_before {digits : List Char} (hdigits : AllDigits digits) (hne : digits ≠ [])
    (k : Nat) (wholeFraction : Bool) :
    Spells (digits ++ List.replicate k '0' ++ (if wholeFraction then ['.', '0'] else []))
      (digitsValue digits * 10 ^ k) := by
  have hall := hdigits.append (allDigits_zeros k)
  have hne' : digits ++ List.replicate k '0' ≠ [] := by simp [hne]
  have hvalue : ((digitsValue (digits ++ List.replicate k '0') : Nat) : ℚ) =
      digitsValue digits * 10 ^ k := by
    rw [digitsValue_zeros, Nat.cast_mul, Nat.cast_pow, mul_comm]
    rfl
  cases wholeFraction with
  | false =>
    have h := spells_plain hall hne'
    rw [hvalue] at h
    simpa using h
  | true =>
    have h := spells_pointed hall hne' (allDigits_zeros 1)
    have hshift : ((10 ^ 1 : Nat) : ℚ) * (digitsValue digits * 10 ^ k) *
        10 ^ (-((List.replicate 1 '0').length : Int)) = digitsValue digits * 10 ^ k := by
      rw [List.length_replicate, Nat.cast_one, zpow_neg_one]
      push_cast
      ring
    rw [digitsValue_zeros, Nat.cast_mul, hvalue, hshift] at h
    exact h

theorem spells_inside {digits : List Char} (hdigits : AllDigits digits) {n : Nat} (hpos : 0 < n)
    (hn : n < digits.length) :
    Spells (digits.take n ++ '.' :: digits.drop n)
      (digitsValue digits * 10 ^ (-(digits.length - n : Nat) : Int)) := by
  have htake : AllDigits (digits.take n) := fun c hc => hdigits c (List.mem_of_mem_take hc)
  have hdrop : AllDigits (digits.drop n) := fun c hc => hdigits c (List.mem_of_mem_drop hc)
  have hne : digits.take n ≠ [] := by
    intro hnil
    have := congrArg List.length hnil
    rw [List.length_take, List.length_nil] at this
    omega
  have h := spells_pointed htake hne hdrop
  rwa [List.take_append_drop, List.length_drop] at h

end Spelling

section Text

variable (layout : Layout) (d : Digits)

theorem spells_positional : Spells (positional layout d) d.value := by
  have hdigits := allDigits_decimalText d.coefficient
  have hne := decimalText_ne_nil d.coefficient
  have hvalue := digitsValue_decimalText d.coefficient
  have hlength : (decimalText d.coefficient).length = digitCount d.coefficient := rfl
  unfold positional Digits.value
  dsimp only
  generalize decimalText d.coefficient = digits at *
  by_cases hsmall : d.point ≤ 0
  · rw [if_pos hsmall]
    have h := spells_behind hdigits (-d.point).toNat
    rw [hvalue, show -(((-d.point).toNat : Int) + digits.length) =
      d.point - digitCount d.coefficient by omega] at h
    exact h
  · rw [if_neg hsmall]
    by_cases hlong : digits.length ≤ d.point.toNat
    · rw [if_pos hlong]
      have h := spells_before hdigits hne (d.point.toNat - digits.length) layout.wholeFraction
      rw [hvalue, ← zpow_natCast, show ((d.point.toNat - digits.length : Nat) : Int) =
        d.point - digitCount d.coefficient by omega] at h
      exact h
    · rw [if_neg hlong]
      have h := spells_inside hdigits (n := d.point.toNat) (by omega) (by omega)
      rw [hvalue, show -((digits.length - d.point.toNat : Nat) : Int) =
        d.point - digitCount d.coefficient by omega] at h
      rw [List.append_assoc]
      exact h

/-- The sign of an exponent. -/
def exponentSign (plusSign : Bool) (exponent : Int) : List Char :=
  if exponent < 0 then ['-'] else if plusSign then ['+'] else []

theorem takeSign_exponentSign (plusSign : Bool) (exponent : Int) {digits : List Char}
    (hdigits : AllDigits digits) (hne : digits ≠ []) :
    takeSign (exponentSign plusSign exponent ++ digits) = (decide (exponent < 0), digits) := by
  unfold exponentSign
  by_cases hneg : exponent < 0
  · rw [if_pos hneg, decide_eq_true hneg]
    rfl
  · rw [if_neg hneg, decide_eq_false hneg]
    cases plusSign with
    | true => rfl
    | false => exact hdigits.takeSign hne

theorem readExponent_signed (plusSign : Bool) (exponent : Int) :
    readExponent ('e' :: (exponentSign plusSign exponent ++ decimalText exponent.natAbs)) =
      some exponent := by
  have hdigits := allDigits_decimalText exponent.natAbs
  have hne := decimalText_ne_nil exponent.natAbs
  have hall : (decimalText exponent.natAbs).all Char.isDigit = true := List.all_eq_true.2 hdigits
  unfold readExponent
  dsimp only
  rw [takeSign_exponentSign plusSign exponent hdigits hne, digitsValue_decimalText]
  have hletter : ('e' == 'e' || 'e' == 'E') = true := rfl
  rw [if_pos hletter, if_neg (by simp [hall, hne])]
  by_cases hneg : exponent < 0
  · rw [if_pos (decide_eq_true hneg), Int.ofNat_natAbs_of_nonpos hneg.le, Int.neg_neg]
  · rw [if_neg (by simp [hneg]), Int.natAbs_of_nonneg (not_lt.1 hneg)]

theorem scientific_eq : scientific layout d =
    (match decimalText d.coefficient with
      | first :: second :: rest => first :: '.' :: second :: rest
      | short => short) ++
    'e' :: (exponentSign layout.plusSign (d.point - 1) ++ decimalText (d.point - 1).natAbs) := by
  unfold scientific exponentSign
  simp only [List.append_assoc]
  rfl

theorem spells_scientific : Spells (scientific layout d) d.value := by
  have hdigits := allDigits_decimalText d.coefficient
  have hne := decimalText_ne_nil d.coefficient
  have hvalue := digitsValue_decimalText d.coefficient
  have hlength : (decimalText d.coefficient).length = digitCount d.coefficient := rfl
  have hexponent := readExponent_signed layout.plusSign (d.point - 1)
  rw [scientific_eq]
  unfold Digits.value
  generalize decimalText d.coefficient = digits at *
  generalize exponentSign layout.plusSign (d.point - 1) ++ decimalText (d.point - 1).natAbs =
    power at *
  cases digits with
  | nil => exact absurd rfl hne
  | cons first digits =>
    cases digits with
    | nil =>
      have hend : ∀ c ∈ ('e' :: power).head?, c.isDigit = false ∧ c ≠ '.' := by simp
      have h := spells_whole hdigits hne hend hexponent
      rw [hvalue] at h
      rw [← hlength]
      exact h
    | cons second rest =>
      have hend : ∀ c ∈ ('e' :: power).head?, c.isDigit = false := by simp
      have hfirst : AllDigits [first] := fun c hc => hdigits c (List.mem_of_mem_take (i := 1) hc)
      have hrest : AllDigits (second :: rest) := fun c hc => hdigits c (.tail first hc)
      have h := spells_fraction hfirst (List.cons_ne_nil first []) hrest hend hexponent
      have hshift : d.point - 1 - ((second :: rest).length : Int) =
          d.point - digitCount d.coefficient := by
        rw [← hlength]
        simp only [List.length_cons]
        omega
      have hjoined : digitsValue ([first] ++ second :: rest) = d.coefficient := hvalue
      rw [hjoined, hshift] at h
      exact h

theorem spells_digitsText : Spells (digitsText layout d) d.value := by
  unfold digitsText
  split
  · exact spells_positional layout d
  · split
    · exact spells_positional layout d
    · exact spells_scientific layout d

end Text

/-! ## Reading back -/

/-- What can be read without a sign has none. -/
theorem takeSign_of_readUnsigned {negative : Bool} {cs : List Char} {x : Float}
    (h : readUnsigned negative cs = some x) : takeSign cs = (false, cs) := by
  unfold takeSign
  split
  · cases h
  · cases h
  · rfl

/-- A numeral with a minus in front, or without. -/
def withSign (negative : Bool) (cs : List Char) : List Char := if negative then '-' :: cs else cs

theorem readFloatChars_withSign {negative : Bool} {cs : List Char} {x : Float}
    (h : readUnsigned negative cs = some x) : readFloatChars (withSign negative cs) = some x := by
  have hsome : (readUnsigned false cs).isSome = true := by
    rw [← Helper.readUnsigned_isSome negative, h]
    rfl
  have hname := (Helper.of_readUnsigned hsome).2.2.2
  have hsign : takeSign (withSign negative cs) = (negative, cs) := by
    cases negative with
    | false => exact takeSign_of_readUnsigned h
    | true => rfl
  rw [Helper.readFloatChars_eq, hsign]
  dsimp only
  rw [hname, if_neg Bool.false_ne_true, h]

theorem isDecimalChar_withSign {negative : Bool} {cs : List Char} {x : Float}
    (h : readUnsigned negative cs = some x) :
    ∀ c ∈ withSign negative cs, Helper.isDecimalChar c = true := by
  have hchars : ∀ c ∈ cs, Helper.isDecimalChar c = true :=
    (Helper.readUnsigned_chars (by rw [h]; rfl)).2
  intro c hc
  cases negative with
  | false => exact hchars c hc
  | true =>
    rcases List.mem_cons.1 hc with rfl | hc
    · rfl
    · exact hchars c hc

/-- A numeral without a sign begins with a digit or the point. -/
theorem head_of_readUnsigned {negative : Bool} {cs : List Char} {x : Float}
    (h : readUnsigned negative cs = some x) : ∃ c ∈ cs.head?, c.isDigit = true ∨ c = '.' := by
  cases cs with
  | nil => cases h
  | cons c cs =>
    refine ⟨c, rfl, ?_⟩
    by_contra hc
    rw [not_or, Bool.not_eq_true] at hc
    have hfraction : Helper.fraction Char.isDigit (c :: cs) = ([], c :: cs) := by
      simp [Helper.fraction, hc.2]
    rw [Helper.readUnsigned_eq] at h
    simp [hc.1, hfraction] at h

theorem isFinite_iff {x : Float} :
    isFinite x = true ↔ ∃ negative m q, parts x = .finite negative m q := by
  unfold isFinite
  constructor
  · intro h
    split at h
    · exact ⟨_, _, _, ‹_›⟩
    · cases h
  · rintro ⟨negative, m, q, hx⟩
    rw [hx]

theorem ofDecimal_zero (negative : Bool) (e : Int) :
    ofDecimal negative 0 e = ofRatio negative 0 1 := by
  unfold ofDecimal
  exact if_pos (.inl rfl)

theorem floatChars_finite {x : Float} {negative : Bool} {m : Nat} {q : Int}
    (hx : parts x = .finite negative m q) (layout : Layout) :
    ∃ cs, floatChars layout x = withSign negative cs ∧ readUnsigned negative cs = some x := by
  obtain ⟨hm, -⟩ := parts_finite hx
  unfold floatChars
  rw [hx]
  refine ⟨_, rfl, ?_⟩
  by_cases hzero : m = 0
  · rw [if_pos hzero]
    subst hzero
    obtain ⟨c, e, hvalue, hread⟩ :=
      spells_before (allDigits_zeros 1) (by simp) 0 layout.wholeFraction
    have hc : c = 0 := by
      have hpow : (10 : ℚ) ^ e ≠ 0 := by positivity
      rw [show digitsValue (List.replicate 1 '0') = 0 from rfl, Nat.cast_zero, zero_mul,
        mul_eq_zero_iff_right hpow] at hvalue
      exact_mod_cast hvalue
    rw [hc] at hread
    exact (hread negative).trans (by rw [ofDecimal_zero, ofRatio_zero hx])
  · rw [if_neg hzero]
    obtain ⟨hcoefficient, howns⟩ := shortest_owns layout.tie hm (Nat.pos_of_ne_zero hzero)
    obtain ⟨c, e, hvalue, hread⟩ := spells_digitsText layout (shortest layout.tie m q)
    rw [← hvalue] at howns
    rw [hread, ofDecimal_eq hx (Nat.pos_of_ne_zero hzero) howns]

section Finite

variable {x : Float} (hx : isFinite x = true) (layout : Layout)

include hx

/-- Every finite float is read back from its text, in every layout. -/
theorem readFloatChars_floatChars : readFloatChars (floatChars layout x) = some x := by
  obtain ⟨negative, m, q, hparts⟩ := isFinite_iff.1 hx
  obtain ⟨cs, htext, hread⟩ := floatChars_finite hparts layout
  rw [htext]
  exact readFloatChars_withSign hread

theorem head_floatChars :
    ∃ c ∈ (floatChars layout x).head?, c.isDigit = true ∨ c = '.' ∨ c = '-' := by
  obtain ⟨negative, m, q, hparts⟩ := isFinite_iff.1 hx
  obtain ⟨cs, htext, hread⟩ := floatChars_finite hparts layout
  rw [htext]
  cases negative with
  | true => exact ⟨'-', rfl, .inr (.inr rfl)⟩
  | false =>
    obtain ⟨c, hhead, hc⟩ := head_of_readUnsigned hread
    exact ⟨c, hhead, hc.imp_right .inl⟩

theorem isDecimalChar_floatChars :
    ∀ c ∈ floatChars layout x, Helper.isDecimalChar c = true := by
  obtain ⟨negative, m, q, hparts⟩ := isFinite_iff.1 hx
  obtain ⟨cs, htext, hread⟩ := floatChars_finite hparts layout
  rw [htext]
  exact isDecimalChar_withSign hread

end Finite

end Number
end ScoringTree
