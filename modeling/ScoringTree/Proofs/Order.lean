import ScoringTree.Scoring.Reading

/-!
# ScoringTree.Proofs.Order

The orders that comparisons ask for.

* `floatOrder?`          — agrees with each comparison of floats taken by itself.
* `Text.units`           — a text as code units of 16 bits, as generated source holds it.
* `Text.compareUnits`    — the order of texts by code units.
* `Text.straddles`       — where two texts first differ, one has a character of two units and the
                           other one that stands behind all surrogates.

The order by code units is that of characters except on straddling texts, and there it is the
opposite (`Text.compareUnits_eq`).
-/

namespace ScoringTree

/-! ## Floats -/

namespace Number

open Float.Model

/-- The order of two floats as the format defines it. -/
def modelOrder? (x y : Float) : Option Ordering := x.toModel.unpack.compare y.toModel.unpack

theorem compare_swap (a b : UnpackedFloat) : a.compare b = (b.compare a).map Ordering.swap := by
  cases a with
  | infinity s =>
    cases b with
    | infinity s' => cases s <;> cases s' <;> rfl
    | notANumber => cases s <;> rfl
    | zero s' => cases s <;> rfl
    | finite s' m e h => cases s <;> rfl
  | notANumber => cases b <;> rfl
  | zero s =>
    cases b with
    | infinity s' => cases s' <;> rfl
    | notANumber => rfl
    | zero s' => rfl
    | finite s' m e h => cases s' <;> rfl
  | finite s m e h =>
    cases b with
    | infinity s' => cases s' <;> rfl
    | notANumber => rfl
    | zero s' => cases s <;> rfl
    | finite s' m' e' h' =>
      have hfinite : (compare e e').then (compare m m') =
          ((compare e' e).then (compare m' m)).swap := by
        rw [Ordering.swap_then, Std.OrientedOrd.eq_swap (a := e), Std.OrientedOrd.eq_swap (a := m)]
      cases s with
      | negative =>
        cases s' with
        | negative => exact congrArg (fun order => some order.swap) hfinite
        | positive => rfl
      | positive =>
        cases s' with
        | negative => rfl
        | positive => exact congrArg some hfinite

theorem lt_iff_modelOrder? (x y : Float) : x < y ↔ modelOrder? x y = some .lt := by
  have h : x < y ↔ x.toModel.unpack.lt y.toModel.unpack = true := decide_eq_true_iff
  rw [h, UnpackedFloat.lt, modelOrder?, beq_iff_eq]

theorem le_iff_modelOrder? (x y : Float) :
    x ≤ y ↔ modelOrder? x y = some .lt ∨ modelOrder? x y = some .eq := by
  have h : x ≤ y ↔ x.toModel.unpack.le y.toModel.unpack = true := decide_eq_true_iff
  rw [h, UnpackedFloat.le, modelOrder?]
  cases x.toModel.unpack.compare y.toModel.unpack with
  | none => simp
  | some order => cases order <;> simp

theorem beq_iff_modelOrder? (x y : Float) : (x == y) = true ↔ modelOrder? x y = some .eq := by
  have h : (x == y) = (modelOrder? x y == some .eq) := rfl
  rw [h, beq_iff_eq]

theorem modelOrder?_swap (x y : Float) : modelOrder? x y = (modelOrder? y x).map Ordering.swap :=
  compare_swap _ _

theorem gt_iff_modelOrder? (x y : Float) : y < x ↔ modelOrder? x y = some .gt := by
  rw [lt_iff_modelOrder?, modelOrder?_swap x y]
  cases modelOrder? y x with
  | none => simp
  | some order => cases order <;> simp

theorem ge_iff_modelOrder? (x y : Float) :
    y ≤ x ↔ modelOrder? x y = some .gt ∨ modelOrder? x y = some .eq := by
  rw [le_iff_modelOrder?, modelOrder?_swap x y]
  cases modelOrder? y x with
  | none => simp
  | some order => cases order <;> simp

/-- Asking for less, equal and greater in turn finds the order of the format. -/
theorem floatOrder?_eq (x y : Float) : floatOrder? x y = modelOrder? x y := by
  simp only [floatOrder?, lt_iff_modelOrder?, beq_iff_modelOrder?]
  rw [modelOrder?_swap y x]
  cases modelOrder? x y with
  | none => simp
  | some order => cases order <;> simp

end Number

/-! ## Text -/

namespace Text

/-- The code units of a character: one below 2^16, else a high and a low surrogate. -/
def charUnits (c : Char) : List Nat :=
  if c.toNat < 0x10000 then [c.toNat]
  else [0xD800 + (c.toNat - 0x10000) / 0x400, 0xDC00 + (c.toNat - 0x10000) % 0x400]

def units (cs : List Char) : List Nat := cs.flatMap charUnits

/-- The order of texts by code units. -/
def compareUnits (s t : String) : Ordering := compare (units s.toList) (units t.toList)

/-- One character has two units, and the other stands behind all surrogates. -/
def Apart (a b : Char) : Prop :=
  (0xE000 ≤ a.toNat ∧ a.toNat < 0x10000 ∧ 0x10000 ≤ b.toNat) ∨
    (0xE000 ≤ b.toNat ∧ b.toNat < 0x10000 ∧ 0x10000 ≤ a.toNat)

instance (a b : Char) : Decidable (Apart a b) := inferInstanceAs (Decidable (_ ∨ _))

/-- The characters at which two texts first differ are apart. -/
def straddles : List Char → List Char → Bool
  | a :: s, b :: t => if a = b then straddles s t else decide (Apart a b)
  | _, _ => false

theorem compare_chars_eq (l m : List Char) : compareOfLessAndEq l m = compare l m := by
  induction l generalizing m with
  | nil =>
    cases m with
    | nil => rfl
    | cons b m => simp [compareOfLessAndEq, List.compare_nil_cons]
  | cons a l ih =>
    cases m with
    | nil => simp [compareOfLessAndEq, List.compare_cons_nil]
    | cons b m =>
      rw [List.compare_cons_cons, ← ih m]
      simp only [compareOfLessAndEq, List.cons_lt_cons_iff, List.cons.injEq]
      have hchar : compare a b = compareOfLessAndEq a b := rfl
      rw [hchar, compareOfLessAndEq]
      by_cases hlt : a < b
      · simp [hlt]
      · by_cases heq : a = b
        · subst heq; simp
        · simp [hlt, heq]

theorem compare_eq_chars (s t : String) : compare s t = compare s.toList t.toList := by
  rw [← compare_chars_eq]
  have h : compare s t = compareOfLessAndEq s t := rfl
  rw [h]
  simp only [compareOfLessAndEq, String.toList_inj]
  rfl

theorem compare_append_left (common us vs : List Nat) :
    compare (common ++ us) (common ++ vs) = compare us vs := by
  induction common with
  | nil => rfl
  | cons u common ih => simp [List.compare_cons_cons, ih]

theorem compare_nat_of_lt {m n : Nat} (h : m < n) : compare m n = .lt :=
  Nat.compare_eq_lt.mpr h

theorem compare_nat_of_gt {m n : Nat} (h : n < m) : compare m n = .gt :=
  Nat.compare_eq_gt.mpr h

/-- Different characters are ordered by their units as they are themselves, unless apart. -/
theorem compare_charUnits {a b : Char} (h : a.toNat < b.toNat) (us vs : List Nat) :
    compare (charUnits a ++ us) (charUnits b ++ vs) = if Apart a b then .gt else .lt := by
  have ha : a.toNat < 0xD800 ∨ 0xDFFF < a.toNat ∧ a.toNat < 0x110000 := a.valid
  have hb : b.toNat < 0xD800 ∨ 0xDFFF < b.toNat ∧ b.toNat < 0x110000 := b.valid
  by_cases hb1 : b.toNat < 0x10000
  · have hnot : ¬ Apart a b := by simp only [Apart]; omega
    have ha1 : a.toNat < 0x10000 := by omega
    simp only [charUnits, if_pos ha1, if_pos hb1, if_neg hnot, List.cons_append, List.nil_append,
      List.compare_cons_cons, compare_nat_of_lt h]
    rfl
  · by_cases ha1 : a.toNat < 0x10000
    · simp only [charUnits, if_pos ha1, if_neg hb1, List.cons_append, List.nil_append,
        List.compare_cons_cons]
      by_cases hapart : Apart a b
      · have : compare a.toNat (0xD800 + (b.toNat - 0x10000) / 0x400) = .gt :=
          compare_nat_of_gt (by simp only [Apart] at hapart; omega)
        rw [this, if_pos hapart]
        rfl
      · have : compare a.toNat (0xD800 + (b.toNat - 0x10000) / 0x400) = .lt :=
          compare_nat_of_lt (by simp only [Apart] at hapart; omega)
        rw [this, if_neg hapart]
        rfl
    · have hnot : ¬ Apart a b := by simp only [Apart]; omega
      simp only [charUnits, if_neg ha1, if_neg hb1, if_neg hnot, List.cons_append,
        List.nil_append, List.compare_cons_cons]
      -- both have two units: the high ones decide, or are equal and the low ones do
      by_cases hhigh : (a.toNat - 0x10000) / 0x400 = (b.toNat - 0x10000) / 0x400
      · have hlow : compare (0xDC00 + (a.toNat - 0x10000) % 0x400)
            (0xDC00 + (b.toNat - 0x10000) % 0x400) = .lt := compare_nat_of_lt (by omega)
        rw [hhigh, hlow]
        simp
      · have : compare (0xD800 + (a.toNat - 0x10000) / 0x400)
            (0xD800 + (b.toNat - 0x10000) / 0x400) = .lt := compare_nat_of_lt (by omega)
        rw [this]
        rfl

theorem apart_comm (a b : Char) : Apart a b ↔ Apart b a := by
  simp only [Apart]
  exact Or.comm

theorem compare_char_eq (a b : Char) : compare a b = compare a.toNat b.toNat := by
  have h : compare a b = compareOfLessAndEq a b := rfl
  rw [h, compareOfLessAndEq]
  have hlt : a < b ↔ a.toNat < b.toNat := Iff.rfl
  rcases Nat.lt_trichotomy a.toNat b.toNat with h | h | h
  · rw [if_pos (hlt.mpr h), compare_nat_of_lt h]
  · rw [Char.toNat_inj.mp h]
    simp
  · have hne : ¬ a = b := fun he => by subst he; omega
    rw [if_neg (by rw [hlt]; omega), if_neg hne, compare_nat_of_gt h]

theorem compare_units (s t : List Char) :
    compare (units s) (units t) = if straddles s t then (compare s t).swap else compare s t := by
  have hcons : ∀ c cs, units (c :: cs) = charUnits c ++ units cs := fun _ _ => rfl
  have hpos : ∀ c, ∃ u us, charUnits c = u :: us := by
    intro c
    simp only [charUnits]
    split <;> exact ⟨_, _, rfl⟩
  induction s generalizing t with
  | nil =>
    cases t with
    | nil => rfl
    | cons b t =>
      obtain ⟨u, us, hu⟩ := hpos b
      rw [hcons, hu]
      rfl
  | cons a s ih =>
    cases t with
    | nil =>
      obtain ⟨u, us, hu⟩ := hpos a
      rw [hcons, hu]
      rfl
    | cons b t =>
      rw [hcons, hcons, List.compare_cons_cons]
      by_cases heq : a = b
      · subst heq
        rw [compare_append_left, ih t]
        simp [straddles]
      · have hne : a.toNat ≠ b.toNat := fun h => heq (Char.toNat_inj.mp h)
        rw [compare_char_eq, show straddles (a :: s) (b :: t) = decide (Apart a b) by
          simp [straddles, heq]]
        rcases Nat.lt_or_gt_of_ne hne with hlt | hgt
        · rw [compare_charUnits hlt, compare_nat_of_lt hlt]
          by_cases hapart : Apart a b <;> simp [hapart]
        · rw [Std.OrientedOrd.eq_swap (a := charUnits a ++ units s), compare_charUnits hgt,
            compare_nat_of_gt hgt]
          have hcomm := apart_comm a b
          by_cases hapart : Apart a b <;> simp [hapart] <;> simp [← hcomm, hapart]

/-- Code units order straddling texts the other way round, and all others as characters do. -/
theorem compareUnits_eq (s t : String) :
    compareUnits s t = if straddles s.toList t.toList then (compare s t).swap else compare s t := by
  rw [compareUnits, compare_units, ← compare_eq_chars]

theorem straddles_ne {s t : List Char} (h : straddles s t = true) : s ≠ t := by
  intro heq
  subst heq
  induction s with
  | nil => simp [straddles] at h
  | cons a s ih => exact ih (by simpa [straddles] using h)

theorem compareUnits_eq_iff (s t : String) :
    compareUnits s t = compare s t ↔ straddles s.toList t.toList = false := by
  rw [compareUnits_eq]
  cases h : straddles s.toList t.toList with
  | false => simp
  | true =>
    have hne : compare s t ≠ .eq := fun heq =>
      straddles_ne h (congrArg String.toList (Std.LawfulEqOrd.eq_of_compare heq))
    cases hc : compare s t <;> simp_all

end Text
end ScoringTree
