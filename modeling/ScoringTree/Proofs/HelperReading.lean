import Mathlib.Data.List.TakeWhile
import ScoringTree.Json.Reader
import ScoringTree.Scoring.Reading

/-!
# ScoringTree.Proofs.HelperReading

How the helpers of generated source read texts, and on which texts the interpreter reads otherwise.

The helpers drop every character up to the space from the two ends, the interpreter the blanks of
Unicode. What is left is a number for the helpers in the notation of generated source, which has
hexadecimal numerals and a letter for the type at the end; the interpreter knows the names of the
special values in any case. The words for flags are compared by the helpers letter by letter in upper
and lower case, where a long `ſ` counts as an `s`.

* `Helper.number`, `Helper.flag`   — the readings of the helpers.
* `Helper.partsNumber`, `Helper.partsFlag`
                                   — texts that one side alone can read.
* `Helper.number_eq_iff`, `Helper.flag_eq_iff`
                                   — the two sides read alike exactly the other texts.
-/

namespace ScoringTree

/-! ## Margins -/

namespace Text

def trimBy (p : Char → Bool) (cs : List Char) : List Char :=
  ((cs.dropWhile p).reverse.dropWhile p).reverse

/-- What `trimBy` drops. -/
def margins (p : Char → Bool) (cs : List Char) : List Char :=
  cs.takeWhile p ++ ((cs.dropWhile p).reverse.takeWhile p).reverse

theorem trimBy_eq_append (p : Char → Bool) (cs : List Char) :
    ∃ lead tail, cs = lead ++ trimBy p cs ++ tail ∧ margins p cs = lead ++ tail ∧
      ∀ c ∈ lead ++ tail, p c = true := by
  refine ⟨cs.takeWhile p, ((cs.dropWhile p).reverse.takeWhile p).reverse, ?_, rfl, ?_⟩
  · have hback : (cs.dropWhile p).reverse.takeWhile p ++ (cs.dropWhile p).reverse.dropWhile p =
        (cs.dropWhile p).reverse := List.takeWhile_append_dropWhile
    have hfront := congrArg List.reverse hback
    rw [List.reverse_append, List.reverse_reverse] at hfront
    rw [trimBy, List.append_assoc, hfront, List.takeWhile_append_dropWhile]
  · intro c hc
    rcases List.mem_append.mp hc with hc | hc
    · exact List.mem_takeWhile_imp hc
    · exact List.mem_takeWhile_imp (List.mem_reverse.mp hc)

/-- The parts of a text are found again if the middle has no character of the margins. -/
theorem trimBy_append {p : Char → Bool} {lead core tail : List Char}
    (hmargins : ∀ c ∈ lead ++ tail, p c = true) (hne : core ≠ [])
    (hcore : ∀ c ∈ core, p c = false) :
    trimBy p (lead ++ core ++ tail) = core ∧ margins p (lead ++ core ++ tail) = lead ++ tail := by
  have hlead : ∀ c ∈ lead, p c = true := fun c hc => hmargins c (List.mem_append_left _ hc)
  have htail : ∀ c ∈ tail.reverse, p c = true := fun c hc =>
    hmargins c (List.mem_append_right _ (List.mem_reverse.mp hc))
  -- a list that starts with a character of the middle is left as it is
  have hstop : ∀ {front : List Char}, front ≠ [] → (∀ c ∈ front, p c = false) → ∀ after,
      (front ++ after).dropWhile p = front ++ after ∧ (front ++ after).takeWhile p = [] := by
    intro front hfront hnone after
    cases front with
    | nil => exact absurd rfl hfront
    | cons c front => simp [hnone c List.mem_cons_self]
  have hdrop : (lead ++ core ++ tail).dropWhile p = core ++ tail := by
    rw [List.append_assoc, List.dropWhile_append_of_pos hlead, (hstop hne hcore tail).1]
  have hback := hstop (by simpa using hne : core.reverse ≠ [])
    (fun c hc => hcore c (List.mem_reverse.mp hc)) []
  rw [List.append_nil] at hback
  constructor
  · rw [trimBy, hdrop, List.reverse_append, List.dropWhile_append_of_pos htail, hback.1,
      List.reverse_reverse]
  · rw [margins, hdrop, List.append_assoc, List.takeWhile_append_of_pos hlead,
      (hstop hne hcore tail).2, List.append_nil, List.reverse_append,
      List.takeWhile_append_of_pos htail, hback.2, List.append_nil, List.reverse_reverse]

end Text

namespace Helper

/-! ## Readings -/

/-- The characters that the helpers drop at the ends of a text. -/
def isTrimmed (c : Char) : Bool := c.toNat ≤ 0x20

def isSuffix (c : Char) : Bool := c == 'f' || c == 'F' || c == 'd' || c == 'D'

/-- A numeral without the letter for its type. -/
def dropSuffix (cs : List Char) : List Char :=
  if cs.getLast?.any isSuffix then cs.dropLast else cs

def isHexDigit (c : Char) : Bool := (Json.hexDigit? c).isSome

def hexValue (cs : List Char) : Nat := cs.foldl (fun n c => 16 * n + (Json.hexDigit? c).getD 0) 0

/-- The float nearest to `m * 2 ^ e`; far out the position of the first bit settles it. -/
def ofBinary (negative : Bool) (m : Nat) (e : Int) : Float :=
  let size : Int := m.log2 + e
  if m = 0 ∨ size < -1200 then Number.ofRatio negative 0 1
  else if 1200 < size then Number.ofRatio negative (Number.twoPow 2000) 1
  else if 0 ≤ e then Number.ofRatio negative (m * Number.twoPow e.toNat) 1
  else Number.ofRatio negative m (Number.twoPow (-e).toNat)

/-- The binary exponent that a hexadecimal numeral ends with. -/
def readBinaryExponent : List Char → Option Int
  | [] => none
  | c :: cs =>
    let signed := Number.takeSign cs
    if (c == 'p' || c == 'P') && !signed.2.isEmpty && signed.2.all Char.isDigit then
      let n : Int := Number.digitsValue signed.2
      some (if signed.1 then -n else n)
    else none

/-- The digits behind a point, if there is one, and what follows them. -/
def fraction (isDigit : Char → Bool) : List Char → List Char × List Char
  | '.' :: cs => (cs.takeWhile isDigit, cs.dropWhile isDigit)
  | cs => ([], cs)

/-- A hexadecimal numeral, from behind its `0x` on. -/
def readHexadecimal (negative : Bool) (cs : List Char) : Option Float :=
  let whole := cs.takeWhile isHexDigit
  let fraction := fraction isHexDigit (cs.dropWhile isHexDigit)
  if whole.isEmpty && fraction.1.isEmpty then none
  else
    (readBinaryExponent (dropSuffix fraction.2)).map fun e =>
      ofBinary negative (hexValue (whole ++ fraction.1)) (e - 4 * fraction.1.length)

/-- What stands behind the `0x` of a hexadecimal numeral. -/
def hexadecimal? : List Char → Option (List Char)
  | '0' :: x :: cs => if x == 'x' || x == 'X' then some cs else none
  | _ => none

def isSpecial (cs : List Char) : Bool := cs == "NaN".toList || cs == "Infinity".toList

def special (negative : Bool) (cs : List Char) : Float :=
  if cs == "NaN".toList then 0.0 / 0.0 else Number.ofRatio negative (Number.twoPow 2000) 1

/-- A number as generated source spells it, without blanks. -/
def readDouble (cs : List Char) : Option Float :=
  let signed := Number.takeSign cs
  if isSpecial signed.2 then some (special signed.1 signed.2)
  else
    match hexadecimal? signed.2 with
    | some digits => readHexadecimal signed.1 digits
    | none => Number.readUnsigned signed.1 (dropSuffix signed.2)

def number (s : String) : Option Float := readDouble (Text.trimBy isTrimmed s.toList)

/-- The character is the small letter once it was put in upper and then in lower case. -/
def isLetter (letter c : Char) : Bool :=
  c.toLower == letter || (letter == 's' && c == 'ſ') || (letter == 'k' && c == 'K') ||
    (letter == 'i' && (c == 'ı' || c == 'İ'))

/-- The word, whatever the case of its letters. -/
def isWord : List Char → List Char → Bool
  | [], [] => true
  | letter :: word, c :: cs => isLetter letter c && isWord word cs
  | _, _ => false

def readWord (cs : List Char) : Option Bool :=
  if isWord "true".toList cs then some true
  else if isWord "false".toList cs then some false
  else none

def flag (s : String) : Option Bool := readWord (Text.trimBy isTrimmed s.toList)

/-! ## Where the two sides part -/

/-- One side or the other drops the character at the ends of a text. -/
def isMargin (c : Char) : Bool := Text.isBlank c || isTrimmed c

/-- One side alone reads a text: the characters around the middle are not dropped by both, or the
middle is readable for one side only. -/
def parts (both interpreter helper : List Char → Bool) (cs : List Char) : Bool :=
  let core := Text.trimBy isMargin cs
  let around := Text.margins isMargin cs
  if both core then around.all Text.isBlank != around.all isTrimmed
  else (around.all Text.isBlank && interpreter core) || (around.all isTrimmed && helper core)

/-- Decimal numerals, and the special values spelled as in generated source. -/
def isCommonNumeral (cs : List Char) : Bool :=
  let body := (Number.takeSign cs).2
  isSpecial body || (Number.readUnsigned false body).isSome

/-- The names of the special values, whatever the case of their letters. -/
def isName (cs : List Char) : Bool :=
  ["inf".toList, "infinity".toList, "nan".toList].contains (Number.asciiLower cs)

/-- The names of the special values in spellings that generated source does not have. -/
def isNamedNumeral (cs : List Char) : Bool :=
  let body := (Number.takeSign cs).2
  !isSpecial body && isName body

/-- Hexadecimal numerals, and decimal ones with a letter for their type. -/
def isSourceNumeral (cs : List Char) : Bool :=
  let body := (Number.takeSign cs).2
  match hexadecimal? body with
  | some digits => (readHexadecimal false digits).isSome
  | none => dropSuffix body != body && (Number.readUnsigned false (dropSuffix body)).isSome

def isCommonWord (cs : List Char) : Bool :=
  Number.asciiLower cs == "true".toList || Number.asciiLower cs == "false".toList

def isSourceWord (cs : List Char) : Bool := !isCommonWord cs && isWord "false".toList cs

def partsNumber (s : String) : Bool :=
  parts isCommonNumeral isNamedNumeral isSourceNumeral s.toList

def partsFlag (s : String) : Bool := parts isCommonWord (fun _ => false) isSourceWord s.toList

/-! ## Characters of numerals -/

/-- A visible character of ASCII. -/
def isGraphic (c : Char) : Prop := 0x20 < c.toNat ∧ c.toNat < 0x7f

instance (c : Char) : Decidable (isGraphic c) := inferInstanceAs (Decidable (_ ∧ _))

theorem isMargin_of_isGraphic {c : Char} (h : isGraphic c) : isMargin c = false := by
  simp only [isGraphic] at h
  simp only [isMargin, Text.isBlank, isTrimmed, Bool.or_eq_false_iff, Bool.and_eq_false_iff,
    beq_eq_false_iff_ne, decide_eq_false_iff_not]
  omega

theorem toNat_of_isDigit {c : Char} (h : c.isDigit = true) : 48 ≤ c.toNat ∧ c.toNat ≤ 57 :=
  Char.isDigit_iff_toNat.mp h

theorem isGraphic_of_toLower {c : Char} (h : isGraphic c.toLower) : isGraphic c := by
  delta Char.toLower at h
  split at h
  · rename_i hupper
    have hlow : 65 ≤ c.toNat := hupper.1
    have hhigh : c.toNat ≤ 90 := hupper.2
    simp only [isGraphic]
    omega
  · exact h

/-- The characters of decimal numerals. -/
def isDecimalChar (c : Char) : Bool :=
  c.isDigit || c == '.' || c == 'e' || c == 'E' || c == '+' || c == '-'

theorem isDecimalChar_iff (c : Char) : isDecimalChar c = true ↔
    c.isDigit = true ∨ c = '.' ∨ c = 'e' ∨ c = 'E' ∨ c = '+' ∨ c = '-' := by
  simp only [isDecimalChar, Bool.or_eq_true, beq_iff_eq, or_assoc]

theorem isGraphic_of_isDecimalChar {c : Char} (h : isDecimalChar c = true) : isGraphic c := by
  rcases (isDecimalChar_iff c).mp h with h | rfl | rfl | rfl | rfl | rfl
  · have := toNat_of_isDigit h
    simp only [isGraphic]
    omega
  all_goals decide

theorem isDecimalChar_of_isSuffix {c : Char} (h : isSuffix c = true) : isDecimalChar c = false := by
  simp only [isSuffix, Bool.or_eq_true, beq_iff_eq] at h
  rcases h with ((rfl | rfl) | rfl) | rfl <;> decide

/-- No decimal numeral has an `n` in it, in lower or upper case. -/
theorem toLower_of_isDecimalChar {c : Char} (h : isDecimalChar c = true) : c.toLower ≠ 'n' := by
  rcases (isDecimalChar_iff c).mp h with h | rfl | rfl | rfl | rfl | rfl
  · intro hn
    have hdigit := toNat_of_isDigit h
    have hlow : ¬ (c.val ≥ 'A'.val ∧ c.val ≤ 'Z'.val) := by
      rintro ⟨hupper, -⟩
      have : 65 ≤ c.toNat := hupper
      omega
    delta Char.toLower at hn
    rw [dif_neg hlow] at hn
    subst hn
    exact absurd hdigit (by decide)
  all_goals decide

theorem mem_takeSign {c : Char} {cs : List Char} (h : c ∈ cs) :
    c = '+' ∨ c = '-' ∨ c ∈ (Number.takeSign cs).2 := by
  cases cs with
  | nil => cases h
  | cons d cs =>
    by_cases hminus : d = '-'
    · subst hminus
      exact Or.inr (List.mem_cons.mp h)
    by_cases hplus : d = '+'
    · subst hplus
      exact (List.mem_cons.mp h).imp_right Or.inr
    exact Or.inr (Or.inr (by simpa [Number.takeSign, hminus, hplus] using h))

theorem isDecimalChar_of_digits {cs : List Char}
    (h : (Number.takeSign cs).2.all Char.isDigit = true) : ∀ c ∈ cs, isDecimalChar c = true := by
  intro c hc
  rcases mem_takeSign hc with rfl | rfl | hc
  · decide
  · decide
  · simp [isDecimalChar, List.all_eq_true.mp h c hc]

theorem mem_fraction (isDigit : Char → Bool) {cs : List Char} {c : Char} (hc : c ∈ cs) :
    isDigit c = true ∨ c = '.' ∨ c ∈ (fraction isDigit (cs.dropWhile isDigit)).2 := by
  have hsplit : ∀ {l : List Char}, c ∈ l → isDigit c = true ∨ c ∈ l.dropWhile isDigit := by
    intro l hl
    rw [← List.takeWhile_append_dropWhile (p := isDigit) (l := l), List.mem_append] at hl
    exact hl.imp_left List.mem_takeWhile_imp
  rcases hsplit hc with hdigit | hrest
  · exact Or.inl hdigit
  · unfold fraction
    split
    · rename_i r hr
      rw [hr] at hrest
      rcases List.mem_cons.mp hrest with rfl | hrest
      · exact Or.inr (Or.inl rfl)
      · exact (hsplit hrest).imp_right Or.inr
    · exact Or.inr (Or.inr hrest)

theorem readExponent_chars {cs : List Char} {e : Int} (h : Number.readExponent cs = some e) :
    ∀ c ∈ cs, isDecimalChar c = true := by
  cases cs with
  | nil => simp
  | cons d cs =>
    simp only [Number.readExponent] at h
    split at h
    · rename_i hletter
      split at h
      · cases h
      · rename_i hdigits
        simp only [Bool.or_eq_true, Bool.not_eq_true', not_or, Bool.not_eq_false] at hdigits
        intro c hc
        rcases List.mem_cons.mp hc with rfl | hc
        · simp only [Bool.or_eq_true, beq_iff_eq] at hletter
          rcases hletter with rfl | rfl <;> decide
        · exact isDecimalChar_of_digits hdigits.2 c hc
    · cases h

theorem readUnsigned_eq (negative : Bool) (cs : List Char) :
    Number.readUnsigned negative cs =
      let whole := cs.takeWhile Char.isDigit
      let fraction := fraction Char.isDigit (cs.dropWhile Char.isDigit)
      if whole.isEmpty && fraction.1.isEmpty then none
      else (Number.readExponent fraction.2).map fun e =>
        Number.ofDecimal negative (Number.digitsValue (whole ++ fraction.1))
          (e - fraction.1.length) := rfl

theorem readUnsigned_chars {negative : Bool} {cs : List Char}
    (h : (Number.readUnsigned negative cs).isSome = true) :
    cs ≠ [] ∧ ∀ c ∈ cs, isDecimalChar c = true := by
  rw [readUnsigned_eq] at h
  simp only at h
  split at h
  · cases h
  · rename_i hdigits
    rw [Option.isSome_map, Option.isSome_iff_exists] at h
    obtain ⟨e, he⟩ := h
    constructor
    · rintro rfl
      exact hdigits rfl
    · intro c hc
      rcases mem_fraction Char.isDigit hc with hc | rfl | hc
      · simp [isDecimalChar, hc]
      · decide
      · exact readExponent_chars he c hc

/-- Whether a numeral can be read does not depend on its sign. -/
theorem readUnsigned_isSome (negative : Bool) (cs : List Char) :
    (Number.readUnsigned negative cs).isSome = (Number.readUnsigned false cs).isSome := by
  simp only [readUnsigned_eq]
  split
  · rfl
  · simp only [Option.isSome_map]

theorem readHexadecimal_isSome (negative : Bool) (cs : List Char) :
    (readHexadecimal negative cs).isSome = (readHexadecimal false cs).isSome := by
  simp only [readHexadecimal]
  split
  · rfl
  · simp only [Option.isSome_map]

theorem mem_dropSuffix {c : Char} {cs : List Char} (hc : c ∈ cs) :
    isSuffix c = true ∨ c ∈ dropSuffix cs := by
  simp only [dropSuffix]
  split
  · rename_i hsuffix
    cases hlast : cs.getLast? with
    | none => simp [hlast] at hsuffix
    | some d =>
      obtain ⟨front, rfl⟩ := List.getLast?_eq_some_iff.mp hlast
      rcases List.mem_append.mp hc with hc | hc
      · exact Or.inr (by simpa using hc)
      · rw [List.mem_singleton.mp hc]
        exact Or.inl (by simpa using hsuffix)
  · exact Or.inr hc

theorem dropSuffix_of_chars {cs : List Char} (h : ∀ c ∈ cs, isDecimalChar c = true) :
    dropSuffix cs = cs := by
  simp only [dropSuffix]
  split
  · rename_i hsuffix
    cases hlast : cs.getLast? with
    | none => simp [hlast] at hsuffix
    | some d =>
      have hd : isSuffix d = true := by simpa [hlast] using hsuffix
      have hmem : d ∈ cs := List.mem_of_getLast? hlast
      exact absurd (h d hmem) (by simp [isDecimalChar_of_isSuffix hd])
  · rfl

theorem isGraphic_of_isSuffix {c : Char} (h : isSuffix c = true) : isGraphic c := by
  simp only [isSuffix, Bool.or_eq_true, beq_iff_eq] at h
  rcases h with ((rfl | rfl) | rfl) | rfl <;> decide

theorem isGraphic_of_isHexDigit {c : Char} (h : isHexDigit c = true) : isGraphic c := by
  have hle : ∀ {a b : Char}, a ≤ b ↔ a.toNat ≤ b.toNat := Iff.rfl
  simp only [isHexDigit, Json.hexDigit?, hle, Char.reduceToNat] at h
  simp only [isGraphic]
  split at h
  · omega
  · split at h
    · omega
    · split at h
      · omega
      · cases h

theorem readBinaryExponent_chars {cs : List Char} {e : Int}
    (h : readBinaryExponent cs = some e) : ∀ c ∈ cs, isGraphic c := by
  cases cs with
  | nil => simp
  | cons d cs =>
    simp only [readBinaryExponent] at h
    split at h
    · rename_i hexponent
      simp only [Bool.and_eq_true, Bool.or_eq_true, beq_iff_eq] at hexponent
      intro c hc
      rcases List.mem_cons.mp hc with rfl | hc
      · rcases hexponent.1.1 with rfl | rfl <;> decide
      · exact isGraphic_of_isDecimalChar (isDecimalChar_of_digits hexponent.2 c hc)
    · cases h

theorem readHexadecimal_chars {negative : Bool} {cs : List Char}
    (h : (readHexadecimal negative cs).isSome = true) : ∀ c ∈ cs, isGraphic c := by
  simp only [readHexadecimal] at h
  split at h
  · cases h
  · rw [Option.isSome_map, Option.isSome_iff_exists] at h
    obtain ⟨e, he⟩ := h
    intro c hc
    rcases mem_fraction isHexDigit hc with hc | rfl | hc
    · exact isGraphic_of_isHexDigit hc
    · decide
    · rcases mem_dropSuffix hc with hc | hc
      · exact isGraphic_of_isSuffix hc
      · exact readBinaryExponent_chars he c hc

/-! ## Numbers -/

theorem hexadecimal?_eq_some {cs digits : List Char} (h : hexadecimal? cs = some digits) :
    ∃ x, (x = 'x' ∨ x = 'X') ∧ cs = '0' :: x :: digits := by
  unfold hexadecimal? at h
  split at h
  · rename_i x rest
    split at h
    · rename_i hx
      cases h
      exact ⟨x, by simpa using hx, rfl⟩
    · cases h
  · cases h

theorem readUnsigned_hexadecimal {negative : Bool} {cs digits : List Char}
    (h : hexadecimal? cs = some digits) : Number.readUnsigned negative cs = none := by
  obtain ⟨x, rfl | rfl, rfl⟩ := hexadecimal?_eq_some h <;> rfl

theorem isName_iff (cs : List Char) : isName cs = true ↔
    (Number.asciiLower cs = "inf".toList ∨ Number.asciiLower cs = "infinity".toList) ∨
      Number.asciiLower cs = "nan".toList := by
  simp only [isName, List.contains_cons, List.contains_nil, Bool.or_false, Bool.or_eq_true,
    beq_iff_eq, or_assoc]

theorem exists_mem_of_isName {body : List Char} (h : isName body = true) :
    ∃ c ∈ body, c.toLower = 'n' := by
  have hmem : 'n' ∈ Number.asciiLower body := by
    rcases (isName_iff body).mp h with (h | h) | h <;> rw [h] <;> decide
  exact List.mem_map.mp hmem

theorem isSpecial_iff (cs : List Char) :
    isSpecial cs = true ↔ cs = "NaN".toList ∨ cs = "Infinity".toList := by
  simp only [isSpecial, Bool.or_eq_true, beq_iff_eq]

/-- A decimal numeral is neither a name, nor hexadecimal, nor followed by a letter. -/
theorem of_readUnsigned {body : List Char} (h : (Number.readUnsigned false body).isSome = true) :
    isSpecial body = false ∧ hexadecimal? body = none ∧ dropSuffix body = body ∧
      isName body = false := by
  have hchars := (readUnsigned_chars h).2
  have hname : isName body = false := by
    rw [Bool.eq_false_iff]
    intro hname
    obtain ⟨c, hc, hn⟩ := exists_mem_of_isName hname
    exact toLower_of_isDecimalChar (hchars c hc) hn
  refine ⟨?_, ?_, dropSuffix_of_chars hchars, hname⟩
  · rw [Bool.eq_false_iff, Ne, isSpecial_iff]
    rintro (rfl | rfl) <;> cases hname
  · cases hhex : hexadecimal? body with
    | none => rfl
    | some digits => simp [readUnsigned_hexadecimal hhex] at h

/-- The value of a name, read without regard to case. -/
def named (negative : Bool) (cs : List Char) : Float :=
  if Number.asciiLower cs = "nan".toList then 0.0 / 0.0
  else Number.ofRatio negative (Number.twoPow 2000) 1

theorem readFloatChars_eq (cs : List Char) :
    Number.readFloatChars cs =
      let signed := Number.takeSign cs
      if isName signed.2 then some (named signed.1 signed.2)
      else Number.readUnsigned signed.1 signed.2 := by
  simp only [Number.readFloatChars, Bool.or_eq_true, beq_iff_eq, isName_iff, named]
  generalize Number.takeSign cs = signed
  by_cases hnan : Number.asciiLower signed.2 = "nan".toList
  · have hinf : ¬ (Number.asciiLower signed.2 = "inf".toList ∨
        Number.asciiLower signed.2 = "infinity".toList) := by
      rw [hnan]
      decide
    rw [if_neg hinf, if_pos hnan, if_pos (Or.inr hnan), if_pos hnan]
  · by_cases hinf : Number.asciiLower signed.2 = "inf".toList ∨
        Number.asciiLower signed.2 = "infinity".toList
    · rw [if_pos hinf, if_pos (Or.inl hinf), if_neg hnan]
    · rw [if_neg hinf, if_neg hnan, if_neg (not_or.mpr ⟨hinf, hnan⟩)]

theorem readFloatChars_isSome (cs : List Char) :
    (Number.readFloatChars cs).isSome = (isCommonNumeral cs || isNamedNumeral cs) := by
  rw [readFloatChars_eq]
  simp only [isCommonNumeral, isNamedNumeral]
  generalize Number.takeSign cs = signed
  obtain ⟨negative, body⟩ := signed
  cases hname : isName body with
  | true => cases isSpecial body <;> simp
  | false =>
    have hspecial : isSpecial body = false := by
      rw [Bool.eq_false_iff, Ne, isSpecial_iff]
      rintro (rfl | rfl) <;> cases hname
    simp [hspecial, readUnsigned_isSome negative]

theorem readDouble_isSome (cs : List Char) :
    (readDouble cs).isSome = (isCommonNumeral cs || isSourceNumeral cs) := by
  simp only [readDouble, isCommonNumeral, isSourceNumeral]
  generalize Number.takeSign cs = signed
  obtain ⟨negative, body⟩ := signed
  cases hspecial : isSpecial body with
  | true => simp
  | false =>
    simp only [Bool.false_eq_true, if_false, Bool.false_or]
    cases hhex : hexadecimal? body with
    | some digits => simp [readUnsigned_hexadecimal hhex, readHexadecimal_isSome negative]
    | none =>
      simp only [readUnsigned_isSome negative]
      by_cases hsuffix : dropSuffix body = body
      · simp [hsuffix]
      · have hbody : (Number.readUnsigned false body).isSome = false := by
          rw [Bool.eq_false_iff]
          intro hsome
          exact hsuffix (of_readUnsigned hsome).2.2.1
        simp [hsuffix, hbody]

theorem readDouble_eq_of_common {cs : List Char} (h : isCommonNumeral cs = true) :
    readDouble cs = Number.readFloatChars cs := by
  rw [readFloatChars_eq]
  simp only [readDouble]
  simp only [isCommonNumeral, Bool.or_eq_true] at h
  generalize Number.takeSign cs = signed at h ⊢
  obtain ⟨negative, body⟩ := signed
  rcases h with hspecial | hdecimal
  · rcases (isSpecial_iff body).mp hspecial with rfl | rfl <;> rfl
  · obtain ⟨hspecial, hhex, hsuffix, hname⟩ := of_readUnsigned hdecimal
    simp only [hspecial, hhex, hsuffix, hname, Bool.false_eq_true, if_false]

theorem not_named_and_source (cs : List Char) :
    ¬ (isNamedNumeral cs = true ∧ isSourceNumeral cs = true) := by
  rintro ⟨hnamed, hsource⟩
  simp only [isNamedNumeral, isSourceNumeral] at hnamed hsource
  generalize (Number.takeSign cs).2 = body at hnamed hsource
  simp only [Bool.and_eq_true] at hnamed
  split at hsource
  · rename_i digits hhex
    obtain ⟨x, -, rfl⟩ := hexadecimal?_eq_some hhex
    have hhead : (Number.asciiLower ('0' :: x :: digits)).head? = some '0' := rfl
    rcases (isName_iff _).mp hnamed.2 with (h | h) | h <;> rw [h] at hhead <;>
      exact absurd hhead (by decide)
  · simp only [Bool.and_eq_true] at hsource
    obtain ⟨c, hc, hn⟩ := exists_mem_of_isName hnamed.2
    rcases mem_dropSuffix hc with hsuffix | hmem
    · simp only [isSuffix, Bool.or_eq_true, beq_iff_eq] at hsuffix
      rcases hsuffix with ((rfl | rfl) | rfl) | rfl <;> exact absurd hn (by decide)
    · exact toLower_of_isDecimalChar ((readUnsigned_chars hsource.2).2 c hmem) hn

/-! ## Solid texts -/

/-- A text that has something in it, and nothing that either side drops at the ends. -/
def Solid (cs : List Char) : Prop := cs ≠ [] ∧ ∀ c ∈ cs, isMargin c = false

theorem Solid.of_takeSign {cs : List Char} (hne : (Number.takeSign cs).2 ≠ [])
    (h : ∀ c ∈ (Number.takeSign cs).2, isGraphic c) : Solid cs := by
  constructor
  · rintro rfl
    exact hne rfl
  · intro c hc
    rcases mem_takeSign hc with rfl | rfl | hc
    · decide
    · decide
    · exact isMargin_of_isGraphic (h c hc)

theorem isGraphic_of_asciiLower {cs word : List Char} (h : Number.asciiLower cs = word)
    (hword : ∀ c ∈ word, isGraphic c) : ∀ c ∈ cs, isGraphic c := by
  intro c hc
  refine isGraphic_of_toLower (hword _ ?_)
  rw [← h]
  exact List.mem_map_of_mem hc

theorem Solid.of_common {cs : List Char} (h : isCommonNumeral cs = true) : Solid cs := by
  simp only [isCommonNumeral, Bool.or_eq_true] at h
  rcases h with hspecial | hdecimal
  · rcases (isSpecial_iff _).mp hspecial with hbody | hbody
    · exact .of_takeSign (by rw [hbody]; decide) (by rw [hbody]; simp [isGraphic])
    · exact .of_takeSign (by rw [hbody]; decide) (by rw [hbody]; simp [isGraphic])
  · obtain ⟨hne, hchars⟩ := readUnsigned_chars hdecimal
    exact .of_takeSign hne fun c hc => isGraphic_of_isDecimalChar (hchars c hc)

theorem Solid.of_named {cs : List Char} (h : isNamedNumeral cs = true) : Solid cs := by
  simp only [isNamedNumeral, Bool.and_eq_true] at h
  obtain ⟨c, hc, -⟩ := exists_mem_of_isName h.2
  refine .of_takeSign (List.ne_nil_of_mem hc) ?_
  rcases (isName_iff _).mp h.2 with (hword | hword) | hword <;>
    exact isGraphic_of_asciiLower hword (by simp [isGraphic])

theorem Solid.of_source {cs : List Char} (h : isSourceNumeral cs = true) : Solid cs := by
  simp only [isSourceNumeral] at h
  split at h
  · rename_i digits hhex
    obtain ⟨x, hx, hbody⟩ := hexadecimal?_eq_some hhex
    refine .of_takeSign (by rw [hbody]; simp) ?_
    rw [hbody]
    intro c hc
    rcases List.mem_cons.mp hc with rfl | hc
    · decide
    · rcases List.mem_cons.mp hc with rfl | hc
      · rcases hx with rfl | rfl <;> decide
      · exact readHexadecimal_chars h c hc
  · simp only [Bool.and_eq_true] at h
    obtain ⟨hne, hchars⟩ := readUnsigned_chars h.2
    refine .of_takeSign ?_ ?_
    · intro hnil
      rw [hnil] at hne
      exact hne rfl
    · intro c hc
      rcases mem_dropSuffix hc with hc | hc
      · exact isGraphic_of_isSuffix hc
      · exact isGraphic_of_isDecimalChar (hchars c hc)

/-! ## Two readings compared -/

/-- Two ways to read what stands between the margins, one for each side. -/
structure Readings {α : Type} (interpreter helper : List Char → Option α)
    (both first second : List Char → Bool) : Prop where
  interpreter_isSome : ∀ cs, (interpreter cs).isSome = (both cs || first cs)
  helper_isSome : ∀ cs, (helper cs).isSome = (both cs || second cs)
  same : ∀ cs, both cs = true → helper cs = interpreter cs
  apart : ∀ cs, ¬ (first cs = true ∧ second cs = true)
  solid : ∀ cs, both cs = true ∨ first cs = true ∨ second cs = true → Solid cs

/-- What can be read between narrower margins is what can be read between the wide ones, if these
hold nothing else. -/
theorem read_trimBy_iff {α : Type} {read : List Char → Option α} {narrow : Char → Bool}
    (hwide : ∀ c, narrow c = true → isMargin c = true)
    (hsolid : ∀ cs, (read cs).isSome = true → Solid cs) (cs : List Char) (x : α) :
    read (Text.trimBy narrow cs) = some x ↔
      (Text.margins isMargin cs).all narrow = true ∧ read (Text.trimBy isMargin cs) = some x := by
  constructor
  · intro hread
    obtain ⟨lead, tail, hcs, -, hmargins⟩ := Text.trimBy_eq_append narrow cs
    obtain ⟨hne, hcore⟩ := hsolid _ (by rw [hread]; rfl)
    obtain ⟨htrim, haround⟩ :=
      Text.trimBy_append (fun c hc => hwide c (hmargins c hc)) hne hcore
    rw [← hcs] at htrim haround
    exact ⟨by rw [haround, List.all_eq_true]; exact hmargins, by rw [htrim]; exact hread⟩
  · rintro ⟨hall, hread⟩
    obtain ⟨lead, tail, hcs, haround, -⟩ := Text.trimBy_eq_append isMargin cs
    obtain ⟨hne, hcore⟩ := hsolid _ (by rw [hread]; rfl)
    have hnarrow : ∀ c ∈ Text.trimBy isMargin cs, narrow c = false := by
      intro c hc
      rw [Bool.eq_false_iff]
      intro hnarrow
      exact absurd (hcore c hc) (by simp [hwide c hnarrow])
    rw [haround, List.all_eq_true] at hall
    obtain ⟨htrim, -⟩ := Text.trimBy_append hall hne hnarrow
    rw [← hcs] at htrim
    rw [htrim]
    exact hread

namespace Readings

variable {α : Type} {interpreter helper : List Char → Option α}
  {both first second : List Char → Bool}

theorem interpreter_iff (h : Readings interpreter helper both first second) (cs : List Char)
    (x : α) : interpreter (Text.trimBy Text.isBlank cs) = some x ↔
      (Text.margins isMargin cs).all Text.isBlank = true ∧
        interpreter (Text.trimBy isMargin cs) = some x := by
  refine read_trimBy_iff (fun c hc => by simp [isMargin, hc]) (fun t ht => h.solid t ?_) cs x
  rw [h.interpreter_isSome, Bool.or_eq_true] at ht
  exact ht.imp_right Or.inl

theorem helper_iff (h : Readings interpreter helper both first second) (cs : List Char)
    (x : α) : helper (Text.trimBy isTrimmed cs) = some x ↔
      (Text.margins isMargin cs).all isTrimmed = true ∧
        helper (Text.trimBy isMargin cs) = some x := by
  refine read_trimBy_iff (fun c hc => by simp [isMargin, hc]) (fun t ht => h.solid t ?_) cs x
  rw [h.helper_isSome, Bool.or_eq_true] at ht
  exact ht.imp_right Or.inr

/-- Both sides find a value or none does, except on the texts on which they part. -/
theorem isSome_eq_iff (h : Readings interpreter helper both first second) (cs : List Char) :
    (interpreter (Text.trimBy Text.isBlank cs)).isSome =
        (helper (Text.trimBy isTrimmed cs)).isSome ↔ parts both first second cs = false := by
  have hinterpreter : (interpreter (Text.trimBy Text.isBlank cs)).isSome =
      ((Text.margins isMargin cs).all Text.isBlank &&
        (both (Text.trimBy isMargin cs) || first (Text.trimBy isMargin cs))) := by
    rw [← h.interpreter_isSome, Bool.eq_iff_iff, Bool.and_eq_true, Option.isSome_iff_exists,
      Option.isSome_iff_exists]
    simp only [h.interpreter_iff, exists_and_left]
  have hhelper : (helper (Text.trimBy isTrimmed cs)).isSome =
      ((Text.margins isMargin cs).all isTrimmed &&
        (both (Text.trimBy isMargin cs) || second (Text.trimBy isMargin cs))) := by
    rw [← h.helper_isSome, Bool.eq_iff_iff, Bool.and_eq_true, Option.isSome_iff_exists,
      Option.isSome_iff_exists]
    simp only [h.helper_iff, exists_and_left]
  have hapart := h.apart (Text.trimBy isMargin cs)
  rw [hinterpreter, hhelper]
  simp only [parts]
  generalize (Text.margins isMargin cs).all Text.isBlank = blank
  generalize (Text.margins isMargin cs).all isTrimmed = trimmed
  cases hboth : both (Text.trimBy isMargin cs) with
  | true => simp
  | false =>
    cases hfirst : first (Text.trimBy isMargin cs) <;>
      cases hsecond : second (Text.trimBy isMargin cs) <;> simp_all

/-- Values that both sides find are the same. -/
theorem same_value (h : Readings interpreter helper both first second) {cs : List Char} {x y : α}
    (hx : interpreter (Text.trimBy Text.isBlank cs) = some x)
    (hy : helper (Text.trimBy isTrimmed cs) = some y) : x = y := by
  have hcore := ((h.interpreter_iff cs x).mp hx).2
  have hcore' := ((h.helper_iff cs y).mp hy).2
  have hfound := h.interpreter_isSome (Text.trimBy isMargin cs)
  have hfound' := h.helper_isSome (Text.trimBy isMargin cs)
  rw [hcore] at hfound
  rw [hcore'] at hfound'
  cases hboth : both (Text.trimBy isMargin cs) with
  | true =>
    rw [h.same _ hboth, hcore] at hcore'
    exact Option.some.inj hcore'
  | false =>
    rw [hboth, Bool.false_or] at hfound hfound'
    exact absurd ⟨hfound.symm, hfound'.symm⟩ (h.apart _)

theorem eq_iff (h : Readings interpreter helper both first second) (cs : List Char) :
    interpreter (Text.trimBy Text.isBlank cs) = helper (Text.trimBy isTrimmed cs) ↔
      parts both first second cs = false := by
  rw [← h.isSome_eq_iff]
  constructor
  · intro heq
    rw [heq]
  · intro heq
    cases hx : interpreter (Text.trimBy Text.isBlank cs) with
    | none =>
      rw [hx] at heq
      exact (Option.isSome_eq_false_iff.mp heq.symm |> Option.isNone_iff_eq_none.mp).symm
    | some x =>
      rw [hx] at heq
      obtain ⟨y, hy⟩ := Option.isSome_iff_exists.mp heq.symm
      rw [hy, h.same_value hx hy]

end Readings

theorem numberReadings : Readings Number.readFloatChars readDouble isCommonNumeral isNamedNumeral
    isSourceNumeral where
  interpreter_isSome := readFloatChars_isSome
  helper_isSome := readDouble_isSome
  same _ := readDouble_eq_of_common
  apart := not_named_and_source
  solid _ h := h.elim .of_common (·.elim .of_named .of_source)

/-! ## Flags -/

theorem isWord_of_asciiLower {word cs : List Char} (h : Number.asciiLower cs = word) :
    isWord word cs = true := by
  induction cs generalizing word with
  | nil =>
    subst h
    rfl
  | cons c cs ih =>
    subst h
    have hletter : isLetter c.toLower c = true := by simp [isLetter]
    rw [Number.asciiLower, List.map_cons, isWord, hletter, Bool.true_and]
    exact ih rfl

/-- A word without an `s`, `k` or `i` has no letter with a third form. -/
theorem asciiLower_of_isWord {word cs : List Char} (h : isWord word cs = true)
    (hword : ∀ c ∈ word, c ≠ 's' ∧ c ≠ 'k' ∧ c ≠ 'i') : Number.asciiLower cs = word := by
  induction word generalizing cs with
  | nil =>
    cases cs with
    | nil => rfl
    | cons c cs => cases h
  | cons letter word ih =>
    cases cs with
    | nil => cases h
    | cons c cs =>
      simp only [isWord, Bool.and_eq_true] at h
      obtain ⟨hs, hk, hi⟩ := hword letter List.mem_cons_self
      have hletter : c.toLower = letter := by simpa [isLetter, hs, hk, hi] using h.1
      have hrest := ih h.2 fun d hd => hword d (List.mem_cons_of_mem _ hd)
      rw [Number.asciiLower, List.map_cons, hletter]
      exact congrArg (letter :: ·) hrest

theorem isWord_true_iff (cs : List Char) :
    isWord "true".toList cs = true ↔ Number.asciiLower cs = "true".toList :=
  ⟨fun h => asciiLower_of_isWord h (by simp), isWord_of_asciiLower⟩

theorem isMargin_of_isLetter {letter c : Char} (hletter : isGraphic letter)
    (h : isLetter letter c = true) : isMargin c = false := by
  simp only [isLetter, Bool.or_eq_true, Bool.and_eq_true, beq_iff_eq] at h
  rcases h with ((h | ⟨-, rfl⟩) | ⟨-, rfl⟩) | ⟨-, rfl | rfl⟩
  · subst h
    exact isMargin_of_isGraphic (isGraphic_of_toLower hletter)
  all_goals decide

theorem Solid.of_isWord {word cs : List Char} (hne : word ≠ []) (hword : ∀ c ∈ word, isGraphic c)
    (h : isWord word cs = true) : Solid cs := by
  constructor
  · rintro rfl
    cases word with
    | nil => exact hne rfl
    | cons letter word => cases h
  · clear hne
    induction word generalizing cs with
    | nil =>
      cases cs with
      | nil => simp
      | cons c cs => cases h
    | cons letter word ih =>
      cases cs with
      | nil => simp
      | cons c cs =>
        simp only [isWord, Bool.and_eq_true] at h
        intro d hd
        rcases List.mem_cons.mp hd with rfl | hd
        · exact isMargin_of_isLetter (hword letter List.mem_cons_self) h.1
        · exact ih (fun e he => hword e (List.mem_cons_of_mem _ he)) h.2 d hd

/-- The word of a flag as the interpreter reads it. -/
def readLower (cs : List Char) : Option Bool :=
  let word := Number.asciiLower cs
  if word == "true".toList then some true
  else if word == "false".toList then some false
  else none

theorem wordReadings : Readings readLower readWord isCommonWord (fun _ => false) isSourceWord where
  interpreter_isSome cs := by
    simp only [readLower, isCommonWord]
    cases Number.asciiLower cs == "true".toList <;>
      cases Number.asciiLower cs == "false".toList <;> rfl
  helper_isSome cs := by
    have htrue := isWord_true_iff cs
    simp only [readWord, isSourceWord, isCommonWord]
    by_cases ht : Number.asciiLower cs = "true".toList
    · simp only [htrue.mpr ht, ht, if_true, beq_self_eq_true, Bool.true_or, Option.isSome_some]
    · rw [if_neg (htrue.not.mpr ht), beq_eq_false_iff_ne.mpr ht, Bool.false_or]
      by_cases hf : Number.asciiLower cs = "false".toList
      · simp only [isWord_of_asciiLower hf, hf, if_true, beq_self_eq_true, Bool.true_or,
          Option.isSome_some]
      · rw [beq_eq_false_iff_ne.mpr hf]
        cases isWord "false".toList cs <;> rfl
  same cs h := by
    have htrue := isWord_true_iff cs
    simp only [isCommonWord, Bool.or_eq_true, beq_iff_eq] at h
    simp only [readWord, readLower]
    rcases h with h | h
    · simp only [htrue.mpr h, h, if_true, beq_self_eq_true]
    · have hne : ¬ Number.asciiLower cs = "true".toList := by
        rw [h]
        decide
      rw [if_neg (htrue.not.mpr hne), if_pos (isWord_of_asciiLower h), h]
      rfl
  apart cs h := by cases h.1
  solid cs h := by
    simp only [isCommonWord, isSourceWord, Bool.or_eq_true, beq_iff_eq, Bool.and_eq_true] at h
    rcases h with (h | h) | h | h
    · exact .of_isWord (by decide) (by simp [isGraphic]) (isWord_of_asciiLower h)
    · exact .of_isWord (by decide) (by simp [isGraphic]) (isWord_of_asciiLower h)
    · cases h
    · exact .of_isWord (by decide) (by simp [isGraphic]) h.2

theorem number_eq_iff (s : String) :
    Number.readTrimmed s = number s ↔ partsNumber s = false := numberReadings.eq_iff s.toList

theorem flag_eq_iff (s : String) : readFlag s = flag s ↔ partsFlag s = false :=
  wordReadings.eq_iff s.toList

end Helper
end ScoringTree
