import ScoringTree.Proofs.JsonText
import ScoringTree.Proofs.Order
import ScoringTree.Source.Literal

/-!
# ScoringTree.Proofs.SourceReading

How generated source is read before anything in it has a meaning.

Source is a sequence of code units. Unicode escapes are replaced first, wherever they stand: such an
escape begins with a backslash that has an even number of backslashes in front of it. What comes out
is cut into tokens, and in a string literal the escape sequences are replaced.

* `Lexis.translate`      — the source without its unicode escapes.
* `Lexis.stringLiteral?` — a string literal in front of a text without unicode escapes.
* `Lexis.readString`     — the string that a text from end to end is the literal of.
* `Lexis.stringLiteral_undone`
                         — a literal that was written is read as the string it was written for.
-/

namespace ScoringTree

namespace Text

/-- The text that code units stand for; none if a surrogate stands alone. -/
def ofUnits? (us : List Nat) : Option (List Char) := Json.assemble (us.map .unit)

theorem ofUnits?_charUnits (c : Char) (us : List Nat) :
    ofUnits? (charUnits c ++ us) = (ofUnits? us).map (c :: ·) := by
  have hvalid : c.toNat < 0xd800 ∨ 0xdfff < c.toNat ∧ c.toNat < 0x110000 := c.valid
  by_cases hshort : c.toNat < 0x10000
  · have hlead : Json.isLead c.toNat = false := by simp [Json.isLead]; omega
    have htrail : Json.isTrail c.toNat = false := by simp [Json.isTrail]; omega
    rw [charUnits, if_pos hshort, List.singleton_append, ofUnits?, List.map_cons,
      Json.assemble_unit hlead htrail, Char.ofNat_toNat]
    rfl
  · have hlead : Json.isLead (0xD800 + (c.toNat - 0x10000) / 0x400) = true := by
      simp [Json.isLead]; omega
    have htrail : Json.isTrail (0xDC00 + (c.toNat - 0x10000) % 0x400) = true := by
      simp [Json.isTrail]; omega
    have hpair : Json.pairChar (0xD800 + (c.toNat - 0x10000) / 0x400)
        (0xDC00 + (c.toNat - 0x10000) % 0x400) = c := by
      have hcode : 0x10000 + (0xD800 + (c.toNat - 0x10000) / 0x400 - 0xd800) * 0x400 +
          (0xDC00 + (c.toNat - 0x10000) % 0x400 - 0xdc00) = c.toNat := by omega
      rw [Json.pairChar, hcode, Char.ofNat_toNat]
    rw [charUnits, if_neg hshort, ofUnits?, List.cons_append, List.cons_append, List.nil_append,
      List.map_cons, List.map_cons, Json.assemble, if_pos hlead]
    simp only [htrail, if_true, hpair]
    rfl

theorem ofUnits?_units (cs : List Char) : ofUnits? (units cs) = some cs := by
  induction cs with
  | nil => rfl
  | cons c cs ih => rw [units, List.flatMap_cons, ofUnits?_charUnits, ← units, ih]; rfl

end Text

namespace Lexis

/-! ## Unicode escapes -/

/-- The unit that a unicode escape stands for, read from behind the backslash on, and what follows
the escape: one or more marking letters and four digits. -/
def unicodeEscape? (us : List Nat) : Option (Nat × List Nat) :=
  match us.dropWhile (· == 'u'.toNat) with
  | a :: b :: c :: d :: rest =>
    (Json.hexUnit? (Char.ofNat a) (Char.ofNat b) (Char.ofNat c) (Char.ofNat d)).map (·, rest)
  | _ => none

theorem length_unicodeEscape? {us rest : List Nat} {unit : Nat}
    (h : unicodeEscape? us = some (unit, rest)) : rest.length < us.length := by
  have hdrop := (List.dropWhile_suffix (· == 'u'.toNat) (l := us)).length_le
  rw [unicodeEscape?] at h
  split at h
  · rename_i a b c d tail hus
    obtain ⟨value, -, hvalue⟩ := Option.map_eq_some_iff.mp h
    cases hvalue
    rw [hus] at hdrop
    simp only [List.length_cons] at hdrop
    omega
  · cases h

/-- The source with its unicode escapes replaced; none if one of them lacks its digits. The backslash
of an escape has an even number of backslashes in front of it, and `odd` tells that those passed in
a row are odd in number. -/
def translate (odd : Bool) (us : List Nat) : Option (List Nat) :=
  match us with
  | [] => some []
  | u :: us =>
    if u = '\\'.toNat ∧ odd = false then
      if us.head? = some 'u'.toNat then
        match _h : unicodeEscape? us with
        | some (unit, rest) => (translate false rest).map (unit :: ·)
        | none => none
      else (translate true us).map (u :: ·)
    else (translate false us).map (u :: ·)
termination_by us.length
decreasing_by
  · have := length_unicodeEscape? _h
    simp only [List.length_cons]
    omega
  · simp
  · simp

theorem translate_plain {u : Nat} (h : u ≠ '\\'.toNat) (odd : Bool) (us : List Nat) :
    translate odd (u :: us) = (translate false us).map (u :: ·) := by
  rw [translate, if_neg fun hslash => h hslash.1]

/-- A backslash that begins no unicode escape passes together with what it stands in front of. -/
theorem translate_pair {v : Nat} (h : v ≠ 'u'.toNat) (us : List Nat) :
    translate false ('\\'.toNat :: v :: us) =
      (translate false us).map fun out => '\\'.toNat :: v :: out := by
  have hsecond : translate true (v :: us) = (translate false us).map (v :: ·) := by
    rw [translate, if_neg fun hslash => Bool.noConfusion hslash.2]
  have hfirst : (v :: us).head? ≠ some 'u'.toNat := fun hhead => h (Option.some.inj hhead)
  rw [translate, if_pos ⟨rfl, rfl⟩, if_neg hfirst, hsecond, Option.map_map]
  rfl

theorem translate_escape {us rest : List Nat} {unit : Nat}
    (h : unicodeEscape? ('u'.toNat :: us) = some (unit, rest)) :
    translate false ('\\'.toNat :: 'u'.toNat :: us) = (translate false rest).map (unit :: ·) := by
  have hhead : ('u'.toNat :: us).head? = some 'u'.toNat := rfl
  rw [translate, if_pos ⟨rfl, rfl⟩, if_pos hhead]
  split
  · rename_i unit' rest' heq
    rw [h] at heq
    cases heq
    rfl
  · rename_i heq
    rw [h] at heq
    cases heq

theorem translate_append {plain : List Nat} (h : ∀ u ∈ plain, u ≠ '\\'.toNat) (us : List Nat) :
    translate false (plain ++ us) = (translate false us).map (plain ++ ·) := by
  induction plain with
  | nil => simp
  | cons u plain ih =>
    rw [List.cons_append, translate_plain (h u List.mem_cons_self),
      ih fun v hv => h v (List.mem_cons_of_mem u hv), Option.map_map]
    rfl

/-! ## String literals -/

/-- The escape sequences of one letter, with the units they stand for. -/
def shortEscapes : List (Nat × Nat) :=
  [('b'.toNat, 0x08), ('s'.toNat, 0x20), ('t'.toNat, 0x09), ('n'.toNat, 0x0a), ('f'.toNat, 0x0c),
    ('r'.toNat, 0x0d), ('"'.toNat, 0x22), ('\x27'.toNat, 0x27), ('\\'.toNat, 0x5c)]

def isOctal (u : Nat) : Bool := '0'.toNat ≤ u && u ≤ '7'.toNat

/-- The unit that an escape sequence stands for, read from behind the backslash on, and what follows
the sequence: a letter, or up to three octal digits for a number below 256. -/
def escapeSequence? : List Nat → Option (Nat × List Nat)
  | [] => none
  | u :: us =>
    if isOctal u then
      let more := (us.take (if u ≤ '3'.toNat then 2 else 1)).takeWhile isOctal
      some ((u :: more).foldl (fun n d => 8 * n + (d - '0'.toNat)) 0, us.drop more.length)
    else (shortEscapes.lookup u).map (·, us)

theorem length_escapeSequence? {us rest : List Nat} {unit : Nat}
    (h : escapeSequence? us = some (unit, rest)) : rest.length < us.length := by
  cases us with
  | nil => cases h
  | cons u us =>
    rw [escapeSequence?] at h
    split at h
    · cases h
      simp only [List.length_drop, List.length_cons]
      omega
    · obtain ⟨value, -, hvalue⟩ := Option.map_eq_some_iff.mp h
      cases hvalue
      simp

/-- The value of a string literal from behind its opening quote on, and what follows its closing
quote; a literal stands on one line. -/
def literalBody? (us : List Nat) : Option (List Nat × List Nat) :=
  match us with
  | [] => none
  | u :: us =>
    if u = '"'.toNat then some ([], us)
    else if u = '\n'.toNat ∨ u = '\r'.toNat then none
    else if u = '\\'.toNat then
      match _h : escapeSequence? us with
      | some (unit, rest) => (literalBody? rest).map fun body => (unit :: body.1, body.2)
      | none => none
    else (literalBody? us).map fun body => (u :: body.1, body.2)
termination_by us.length
decreasing_by
  · have := length_escapeSequence? _h
    simp only [List.length_cons]
    omega
  · simp

/-- The value of the string literal in front, and what follows it. Three quotes open no literal but a
block of text. -/
def stringLiteral? : List Nat → Option (List Nat × List Nat)
  | [] => none
  | u :: us =>
    if u = '"'.toNat ∧ us.take 2 ≠ ['"'.toNat, '"'.toNat] then literalBody? us else none

/-- The string that a text is the literal of, if it is one literal and nothing else. -/
def readString (text : List Char) : Option String :=
  match (translate false (Text.units text)).bind stringLiteral? with
  | some (value, []) => (Text.ofUnits? value).map String.ofList
  | _ => none

/-- The unit stands for itself in a literal. -/
def Passes (u : Nat) : Prop :=
  u ≠ '"'.toNat ∧ u ≠ '\n'.toNat ∧ u ≠ '\r'.toNat ∧ u ≠ '\\'.toNat

theorem literalBody?_append {plain : List Nat} (h : ∀ u ∈ plain, Passes u) (us : List Nat) :
    literalBody? (plain ++ us) =
      (literalBody? us).map fun body => (plain ++ body.1, body.2) := by
  induction plain with
  | nil => simp
  | cons u plain ih =>
    obtain ⟨hquote, hnewline, hreturn, hslash⟩ := h u List.mem_cons_self
    have hline : ¬ (u = '\n'.toNat ∨ u = '\r'.toNat) := not_or.mpr ⟨hnewline, hreturn⟩
    rw [List.cons_append, literalBody?, if_neg hquote, if_neg hline, if_neg hslash,
      ih fun v hv => h v (List.mem_cons_of_mem u hv), Option.map_map]
    rfl

theorem literalBody?_escape {us rest : List Nat} {unit : Nat}
    (h : escapeSequence? us = some (unit, rest)) :
    literalBody? ('\\'.toNat :: us) =
      (literalBody? rest).map fun body => (unit :: body.1, body.2) := by
  rw [literalBody?, if_neg (by decide), if_neg (by decide), if_pos rfl]
  split
  · rename_i unit' rest' heq
    rw [h] at heq
    cases heq
    rfl
  · rename_i heq
    rw [h] at heq
    cases heq

/-! ## Literals as they are written -/

open Source (escapeChar isControl stringLiteralChars)

theorem units_append (cs ds : List Char) : Text.units (cs ++ ds) = Text.units cs ++ Text.units ds :=
  List.flatMap_append

theorem charUnits_of_lt {c : Char} (h : c.toNat < 0x10000) : Text.charUnits c = [c.toNat] :=
  if_pos h

theorem ne_of_mem_charUnits {c d : Char} (h : c ≠ d) (hd : d.toNat < 0x80) :
    ∀ u ∈ Text.charUnits c, u ≠ d.toNat := by
  intro u hu hud
  rw [Text.charUnits] at hu
  split at hu
  · rw [List.mem_singleton] at hu
    exact h (Char.toNat_inj.mp (hu.symm.trans hud))
  · simp only [List.mem_cons, List.not_mem_nil, or_false] at hu
    omega

theorem passes_charUnits {c : Char} (hquote : c ≠ '"') (hnewline : c ≠ '\n') (hreturn : c ≠ '\r')
    (hslash : c ≠ '\\') : ∀ u ∈ Text.charUnits c, Passes u := by
  intro u hu
  exact ⟨ne_of_mem_charUnits hquote (by decide) u hu,
    ne_of_mem_charUnits hnewline (by decide) u hu, ne_of_mem_charUnits hreturn (by decide) u hu,
    ne_of_mem_charUnits hslash (by decide) u hu⟩

/-- The characters that are written with an escape sequence of one letter. -/
def shortEscaped : List Char := ['"', '\\', '\n', '\r', '\t']

theorem escapeChar_short {c : Char} (h : c ∈ shortEscaped) : ∃ e,
    escapeChar c = ['\\', e] ∧ e ≠ 'u' ∧ Text.charUnits e = [e.toNat] ∧
      Text.charUnits c = [c.toNat] ∧ ∀ us, escapeSequence? (e.toNat :: us) = some (c.toNat, us) := by
  simp only [shortEscaped, List.mem_cons, List.not_mem_nil, or_false] at h
  rcases h with rfl | rfl | rfl | rfl | rfl <;>
    exact ⟨_, rfl, by decide, rfl, rfl, fun us => rfl⟩

theorem escapeChar_long {c : Char} (h : c ∉ shortEscaped) :
    escapeChar c = if isControl c then ['\\', 'u'] ++ Text.hexPadded 4 c.toNat else [c] := by
  simp only [shortEscaped, List.mem_cons, List.not_mem_nil, or_false, not_or] at h
  simp [escapeChar, h]

theorem charUnits_digitChar {d : Nat} (h : d < 16) :
    Text.charUnits (Nat.digitChar d) = [(Nat.digitChar d).toNat] := by
  interval_cases d <;> rfl

theorem unicodeEscape?_hexPadded {n : Nat} (h : n < 0x100) (us : List Nat) :
    unicodeEscape? ('u'.toNat :: (Text.units (Text.hexPadded 4 n) ++ us)) = some (n, us) := by
  obtain ⟨a, b, c, d, hpad, hunit⟩ := Json.hexUnit?_hexPadded h
  have hdigits := Json.hexPadded_four h
  rw [hpad] at hdigits
  obtain ⟨rfl, rfl, rfl, rfl⟩ := by simpa only [List.cons.injEq, and_true] using hdigits
  have hunits : Text.units (Text.hexPadded 4 n) =
      ['0'.toNat, '0'.toNat, (Nat.digitChar (n / 16)).toNat, (Nat.digitChar (n % 16)).toNat] := by
    rw [hpad, Text.units]
    simp only [List.flatMap_cons, List.flatMap_nil, charUnits_digitChar (show n / 16 < 16 by omega),
      charUnits_digitChar (show n % 16 < 16 by omega)]
    rfl
  rw [hunits]
  change (Json.hexUnit? (Char.ofNat '0'.toNat) (Char.ofNat '0'.toNat)
    (Char.ofNat (Nat.digitChar (n / 16)).toNat) (Char.ofNat (Nat.digitChar (n % 16)).toNat)).map
      (·, us) = some (n, us)
  rw [Char.ofNat_toNat, Char.ofNat_toNat, Char.ofNat_toNat, hunit]
  rfl

/-- What a character is written as becomes the character again, if unicode escapes are replaced
before escape sequences. -/
theorem escapeChar_lexes (c : Char) : ∃ lexed,
    (∀ us, translate false (Text.units (escapeChar c) ++ us) =
      (translate false us).map (lexed ++ ·)) ∧
    ∀ us, literalBody? (lexed ++ us) =
      (literalBody? us).map fun body => (Text.charUnits c ++ body.1, body.2) := by
  by_cases hshort : c ∈ shortEscaped
  · obtain ⟨e, hchars, hmarker, he, hc, hsequence⟩ := escapeChar_short hshort
    refine ⟨['\\'.toNat, e.toNat], ?_, ?_⟩
    · intro us
      rw [hchars, Text.units, List.flatMap_cons, List.flatMap_cons, List.flatMap_nil, he]
      exact translate_pair (fun h => hmarker (Char.toNat_inj.mp h)) us
    · intro us
      rw [hc]
      exact literalBody?_escape (hsequence us)
  · have hpasses : ∀ u ∈ Text.charUnits c, Passes u := by
      simp only [shortEscaped, List.mem_cons, List.not_mem_nil, or_false, not_or] at hshort
      exact passes_charUnits hshort.1 hshort.2.2.1 hshort.2.2.2.1 hshort.2.1
    refine ⟨Text.charUnits c, ?_, literalBody?_append hpasses⟩
    intro us
    rw [escapeChar_long hshort]
    by_cases hcontrol : isControl c
    · -- a control character is written as a unicode escape, which is replaced first
      have hc : c.toNat < 0x100 := by
        simp only [isControl, Bool.or_eq_true, Bool.and_eq_true, decide_eq_true_eq] at hcontrol
        omega
      rw [if_pos hcontrol, units_append, List.append_assoc, charUnits_of_lt (by omega)]
      exact translate_escape (unicodeEscape?_hexPadded hc us)
    · rw [if_neg hcontrol, Text.units, List.flatMap_singleton]
      exact translate_append (fun u hu => (hpasses u hu).2.2.2) us

theorem flatMap_escapeChar_lexes (cs : List Char) : ∃ lexed,
    (∀ us, translate false (Text.units (cs.flatMap escapeChar) ++ us) =
      (translate false us).map (lexed ++ ·)) ∧
    ∀ us, literalBody? (lexed ++ '"'.toNat :: us) = some (Text.units cs, us) := by
  induction cs with
  | nil =>
    refine ⟨[], fun us => by simp [Text.units], fun us => ?_⟩
    rw [List.nil_append, literalBody?, if_pos rfl]
    rfl
  | cons c cs ih =>
    obtain ⟨first, htranslate, hbody⟩ := escapeChar_lexes c
    obtain ⟨lexed, htranslateAll, hbodyAll⟩ := ih
    refine ⟨first ++ lexed, fun us => ?_, fun us => ?_⟩
    · rw [List.flatMap_cons, units_append, List.append_assoc, htranslate, htranslateAll,
        Option.map_map]
      simp only [Function.comp_def, List.append_assoc]
    · rw [List.append_assoc, hbody, hbodyAll]
      rfl

/-- The two quotes with what is between them. -/
theorem translate_stringLiteral (cs : List Char) : ∃ lexed,
    translate false (Text.units (stringLiteralChars cs)) = some lexed ∧
      stringLiteral? lexed = some (Text.units cs, []) := by
  obtain ⟨body, htranslate, hbody⟩ := flatMap_escapeChar_lexes cs
  have hquote : translate false (Text.units ['"']) = some ['"'.toNat] := by
    change translate false ['"'.toNat] = some ['"'.toNat]
    rw [translate_plain (by decide), translate]
    rfl
  refine ⟨'"'.toNat :: (body ++ ['"'.toNat]), ?_, ?_⟩
  · have hunits : Text.units (stringLiteralChars cs) =
        '"'.toNat :: (Text.units (cs.flatMap escapeChar) ++ Text.units ['"']) := by
      rw [stringLiteralChars, Text.units, List.flatMap_cons, ← Text.units, units_append]
      rfl
    rw [hunits, translate_plain (by decide), htranslate, hquote]
    rfl
  · rw [stringLiteral?, if_pos, hbody]
    refine ⟨rfl, ?_⟩
    -- with a quote in front the body would end before the closing quote
    intro hblock
    obtain ⟨tail, htail⟩ : ∃ tail, body ++ ['"'.toNat] = '"'.toNat :: '"'.toNat :: tail := by
      refine ⟨(body ++ ['"'.toNat]).drop 2, ?_⟩
      rw [← List.take_append_drop 2 (body ++ ['"'.toNat]), hblock]
      rfl
    have hended := hbody []
    rw [htail, literalBody?, if_pos rfl] at hended
    simp at hended

theorem readString_stringLiteral (cs : List Char) :
    readString (stringLiteralChars cs) = some (String.ofList cs) := by
  obtain ⟨lexed, htranslate, hliteral⟩ := translate_stringLiteral cs
  rw [readString, htranslate, Option.bind_some, hliteral]
  simp only [Text.ofUnits?_units, Option.map_some]

/-- A string literal that was written is one literal from end to end for whoever reads source, and
stands for the string it was written for, unit by unit and as a text. -/
theorem stringLiteral_undone (s : String) :
    (translate false (Text.units (Source.stringLiteral s).toList)).bind stringLiteral? =
      some (Text.units s.toList, []) ∧
    readString (Source.stringLiteral s).toList = some s := by
  rw [Source.stringLiteral, String.toList_ofList]
  constructor
  · obtain ⟨lexed, htranslate, hliteral⟩ := translate_stringLiteral s.toList
    rw [htranslate, Option.bind_some, hliteral]
  · rw [readString_stringLiteral, String.ofList_toList]

end Lexis
end ScoringTree
