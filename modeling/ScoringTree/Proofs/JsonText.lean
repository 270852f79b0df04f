import ScoringTree.Proofs.Numeral

/-!
# ScoringTree.Proofs.JsonText

JSON text that was written can be read.

* `Json.stringPieces_stringChars`
                         — a string, with all its escapes.
* `Json.numbers`         — the numbers in a value.
* `Json.readValue_chars` — the text of a value reads as the value, whatever closed text follows.
* `Json.read_render`     — a whole text.
* `Number.ReadsBack`     — the text of a float reads as this float.
-/

namespace ScoringTree

namespace Json

/-! ## Strings -/

theorem hexPadded_four {n : Nat} (h : n < 0x100) :
    Text.hexPadded 4 n = ['0', '0', Nat.digitChar (n / 16), Nat.digitChar (n % 16)] := by
  by_cases hdigit : n < 16
  · rw [Text.hexPadded, Text.hexDigits, Nat.toDigits_of_lt_base hdigit, Nat.div_eq_of_lt hdigit,
      Nat.mod_eq_of_lt hdigit]
    rfl
  · have hhigh : n / 16 < 16 := by omega
    rw [Text.hexPadded, Text.hexDigits, Nat.toDigits_of_base_le (by omega) (by omega),
      Nat.toDigits_of_lt_base hhigh]
    rfl

theorem hexDigit?_digitChar {d : Nat} (h : d < 16) : hexDigit? (Nat.digitChar d) = some d := by
  interval_cases d <;> rfl

theorem hexUnit?_hexPadded {n : Nat} (h : n < 0x100) :
    ∃ a b c d, Text.hexPadded 4 n = [a, b, c, d] ∧ hexUnit? a b c d = some n := by
  refine ⟨_, _, _, _, hexPadded_four h, ?_⟩
  have hhigh : n / 16 < 16 := by omega
  have hlow : n % 16 < 16 := by omega
  have hzero : hexDigit? '0' = some 0 := rfl
  simp only [hexUnit?, hzero, hexDigit?_digitChar hhigh, hexDigit?_digitChar hlow, Option.some.injEq]
  omega

theorem assemble_unit {n : Nat} (hlead : isLead n = false) (htrail : isTrail n = false)
    (pieces : List Piece) :
    assemble (.unit n :: pieces) = (assemble pieces).map (Char.ofNat n :: ·) := by
  rcases pieces with _ | ⟨_ | m, pieces⟩ <;> simp [assemble, hlead, htrail]

/-- The characters with an escape of one letter. -/
def shortEscaped : List Char := ['"', '\\', '\x08', '\x0c', '\n', '\r', '\t']

theorem escapeChar_short {c : Char} (h : c ∈ shortEscaped) :
    ∃ e, escapeChar c = ['\\', e] ∧ e ≠ 'u' ∧ shortEscape? e = some c := by
  simp only [shortEscaped, List.mem_cons, List.not_mem_nil, or_false] at h
  rcases h with rfl | rfl | rfl | rfl | rfl | rfl | rfl <;> exact ⟨_, rfl, by decide, rfl⟩

theorem stringPieces_short {e c : Char} (he : e ≠ 'u') (hc : shortEscape? e = some c)
    (cs : List Char) :
    stringPieces ('\\' :: e :: cs) = (stringPieces cs).map fun r => (.char c :: r.1, r.2) := by
  rw [stringPieces.eq_4 e cs (fun _ _ _ _ _ h => absurd h he), hc]
  cases stringPieces cs <;> rfl

theorem stringPieces_unit {a b c d : Char} {n : Nat} (h : hexUnit? a b c d = some n)
    (cs : List Char) :
    stringPieces ('\\' :: 'u' :: a :: b :: c :: d :: cs)
      = (stringPieces cs).map fun r => (.unit n :: r.1, r.2) := by
  rw [stringPieces, h]
  cases stringPieces cs <;> rfl

theorem stringPieces_plain {c : Char} (hquote : c ≠ '"') (hslash : c ≠ '\\')
    (hcontrol : ¬c.toNat < 0x20) (cs : List Char) :
    stringPieces (c :: cs) = (stringPieces cs).map fun r => (.char c :: r.1, r.2) := by
  rw [stringPieces.eq_5 c cs hquote (fun _ _ _ _ _ h => absurd h hslash)
    (fun _ _ h => absurd h hslash), if_neg hcontrol]
  cases stringPieces cs <;> rfl

/-- A character is written as one piece, which stands for this character. -/
theorem stringPieces_escapeChar (c : Char) : ∃ piece,
    (∀ cs, stringPieces (escapeChar c ++ cs)
      = (stringPieces cs).map fun r => (piece :: r.1, r.2)) ∧
    ∀ pieces, assemble (piece :: pieces) = (assemble pieces).map (c :: ·) := by
  by_cases hshort : c ∈ shortEscaped
  · obtain ⟨e, hchars, he, hc⟩ := escapeChar_short hshort
    refine ⟨.char c, fun cs => ?_, fun pieces => rfl⟩
    rw [hchars]
    exact stringPieces_short he hc cs
  · have hchars : escapeChar c
        = if c.toNat < 0x20 then ['\\', 'u'] ++ Text.hexPadded 4 c.toNat else [c] := by
      simp only [shortEscaped, List.mem_cons, List.not_mem_nil, or_false, not_or] at hshort
      simp [escapeChar, hshort]
    rw [hchars]
    by_cases hcontrol : c.toNat < 0x20
    · obtain ⟨w, x, y, z, hpad, hunit⟩ := hexUnit?_hexPadded (Nat.lt_trans hcontrol (by omega))
      have hlead : isLead c.toNat = false := by simp [isLead]; omega
      have htrail : isTrail c.toNat = false := by simp [isTrail]; omega
      refine ⟨.unit c.toNat, fun cs => ?_, fun pieces => ?_⟩
      · rw [if_pos hcontrol, hpad]
        exact stringPieces_unit hunit cs
      · rw [assemble_unit hlead htrail, Char.ofNat_toNat]
    · refine ⟨.char c, fun cs => ?_, fun pieces => rfl⟩
      rw [if_neg hcontrol]
      refine stringPieces_plain ?_ ?_ hcontrol cs
      · rintro rfl
        exact hshort (by decide)
      · rintro rfl
        exact hshort (by decide)

/-- A string that was written reads as the string, whatever follows it. -/
theorem stringPieces_flatMap (s : List Char) (rest : List Char) : ∃ pieces,
    stringPieces (s.flatMap escapeChar ++ '"' :: rest) = some (pieces, rest) ∧
    assemble pieces = some s := by
  induction s with
  | nil => exact ⟨[], rfl, rfl⟩
  | cons c s ih =>
    obtain ⟨pieces, hread, htext⟩ := ih
    obtain ⟨piece, hpiece, hassemble⟩ := stringPieces_escapeChar c
    refine ⟨piece :: pieces, ?_, ?_⟩
    · rw [List.flatMap_cons, List.append_assoc, hpiece, hread]
      rfl
    · rw [hassemble, htext]
      rfl

theorem stringPieces_stringChars (s : String) (rest : List Char) : ∃ pieces,
    stringPieces ((stringChars s).tail ++ rest) = some (pieces, rest) ∧
    stringDatum pieces = .text s := by
  obtain ⟨pieces, hread, htext⟩ := stringPieces_flatMap s.toList rest
  refine ⟨pieces, ?_, ?_⟩
  · simpa [stringChars] using hread
  · simp [stringDatum, htext]

/-! ## Values -/

mutual

/-- The numbers in a value, from left to right. -/
def numbers : Json → List Quantity
  | .number n => [n]
  | .array items => itemsNumbers items
  | .object members => membersNumbers members
  | _ => []

def itemsNumbers : List Json → List Quantity
  | [] => []
  | v :: vs => numbers v ++ itemsNumbers vs

def membersNumbers : List (String × Json) → List Quantity
  | [] => []
  | (_, v) :: rest => numbers v ++ membersNumbers rest

end

theorem skipGaps_cons {c : Char} (h : isGap c = false) (cs : List Char) :
    skipGaps (c :: cs) = c :: cs := by
  simp [skipGaps, h]

theorem skipGaps_of_not_isGap {cs : List Char} (h : ∀ c ∈ cs, isGap c = false) :
    skipGaps cs = cs := by
  cases cs with
  | nil => rfl
  | cons c cs => exact skipGaps_cons (h c (by simp)) cs

theorem not_isGap_of_numeral {c : Char} (h : c = '-' ∨ c.isDigit) : isGap c = false := by
  by_contra hgap
  simp only [isGap, Bool.not_eq_false, Bool.or_eq_true, beq_iff_eq] at hgap
  rcases hgap with ((rfl | rfl) | rfl) | rfl <;> simp at h

/-- What starts like a numeral is read as one. -/
theorem readValue_numeral {c : Char} (h : c = '-' ∨ c.isDigit) (fuel depth : Nat)
    (cs : List Char) :
    readValue (fuel + 1) depth (c :: cs)
      = (Numeral.read (c :: cs)).map fun r => (numberDatum r.1, r.2) := by
  rw [readValue, skipGaps_cons (not_isGap_of_numeral h)]
  split <;> simp_all

theorem readValue_array (fuel depth : Nat) {c : Char} (hgap : isGap c = false) (hc : c ≠ ']')
    (cs : List Char) :
    readValue (fuel + 1) depth ('[' :: c :: cs)
      = (readItems fuel (depth - 1) (c :: cs)).map fun r => (nested depth (.seq r.1), r.2) := by
  rw [readValue, skipGaps_cons (by decide)]
  simp only [skipGaps_cons hgap]
  split <;> simp_all

theorem readValue_object (fuel depth : Nat) (cs : List Char) :
    readValue (fuel + 1) depth ('\x7b' :: '"' :: cs)
      = (readMembers fuel (depth - 1) ('"' :: cs)).map fun r => (nested depth (.map r.1), r.2) := by
  rw [readValue, skipGaps_cons (by decide)]
  rfl

/-- A written value starts with a character that is neither a blank nor the end of a list. -/
theorem chars_cons (v : Json) (h : ∀ q ∈ v.numbers, q.Legible) :
    ∃ c cs, chars v = c :: cs ∧ isGap c = false ∧ c ≠ ']' := by
  cases v with
  | null => exact ⟨_, _, rfl, rfl, by decide⟩
  | bool b => cases b <;> exact ⟨_, _, rfl, rfl, by decide⟩
  | number q =>
    obtain ⟨numeral, hread, -⟩ := h q (by simp [numbers])
    obtain ⟨c, cs, hcs, hc⟩ := Numeral.read_cons hread
    refine ⟨c, cs, hcs, not_isGap_of_numeral hc, ?_⟩
    rintro rfl
    simp at hc
  | string s => exact ⟨_, _, rfl, rfl, by decide⟩
  | array items => exact ⟨_, _, rfl, rfl, by decide⟩
  | object members => exact ⟨_, _, rfl, rfl, by decide⟩

theorem itemsChars_cons_cons (item next : Json) (items : List Json) :
    itemsChars (item :: next :: items) = chars item ++ ',' :: itemsChars (next :: items) := rfl

theorem membersChars_cons_cons (key : String) (value : Json) (next : String × Json)
    (members : List (String × Json)) :
    membersChars ((key, value) :: next :: members)
      = stringChars key ++ ':' :: (chars value ++ ',' :: membersChars (next :: members)) := rfl

theorem itemsChars_cons (item : Json) (items : List Json)
    (h : ∀ q ∈ itemsNumbers (item :: items), q.Legible) :
    ∃ c cs, itemsChars (item :: items) = c :: cs ∧ isGap c = false ∧ c ≠ ']' := by
  obtain ⟨c, cs, hcs, hc⟩ := chars_cons item (fun q hq => h q (by simp [itemsNumbers, hq]))
  cases items with
  | nil => exact ⟨c, cs, hcs, hc⟩
  | cons next items =>
    refine ⟨c, cs ++ ',' :: itemsChars (next :: items), ?_, hc⟩
    rw [itemsChars_cons_cons, hcs, List.cons_append]

theorem membersChars_cons (key : String) (value : Json) (members : List (String × Json)) :
    ∃ cs, membersChars ((key, value) :: members) = '"' :: cs := by
  cases members <;> exact ⟨_, rfl⟩

/-- A member that was written, with more members or the end of the map behind its value. -/
theorem readMembers_stringChars {fuel depth : Nat} {key : String} {body rest : List Char}
    {value : Datum} {result : Option (List (Datum × Datum) × List Char)}
    (h : readValue fuel depth body = some (value, rest))
    (hnext : (∃ more, rest = ',' :: more ∧ result =
        (readMembers fuel depth more).map fun r => ((.text key, value) :: r.1, r.2)) ∨
      ∃ after, rest = '\x7d' :: after ∧ result = some ([(.text key, value)], after)) :
    readMembers (fuel + 1) depth (stringChars key ++ ':' :: body) = result := by
  obtain ⟨pieces, hread, htext⟩ := stringPieces_stringChars key (':' :: body)
  have hcons : stringChars key ++ ':' :: body
      = '"' :: ((stringChars key).tail ++ ':' :: body) := rfl
  have hquote : isGap '"' = false := rfl
  have hcolon : isGap ':' = false := rfl
  rw [hcons, readMembers]
  simp only [skipGaps_cons hquote, hread, skipGaps_cons hcolon, h]
  rw [← htext] at hnext
  rcases hnext with ⟨more, rfl, rfl⟩ | ⟨after, rfl, rfl⟩ <;> rfl

theorem nested_of_pos {depth : Nat} (h : 0 < depth) (d : Datum) : nested depth d = d := by
  rw [nested, if_neg (by omega)]

-- Fuel is counted in characters: a value takes two units for each of its characters, and the
-- items of a list and the members of a map take one more to get started.
mutual

/-- A value that was written reads as the value, whatever closed text follows. -/
theorem readValue_chars : ∀ (v : Json) (fuel depth : Nat) (rest : List Char),
    2 * (chars v).length ≤ fuel → (Datum.ofJson v).depth ≤ depth →
    (∀ q ∈ v.numbers, q.Legible) → Closed rest →
    readValue fuel depth (chars v ++ rest) = some (.ofJson v, rest)
  | v, 0, _, _, hfuel, _, hnumbers, _ => by
    obtain ⟨c, cs, hcs, -, -⟩ := chars_cons v hnumbers
    simp [hcs] at hfuel
  | .null, fuel + 1, depth, rest, _, _, _, _ => by
    rw [readValue]
    rfl
  | .bool true, fuel + 1, depth, rest, _, _, _, _ => by
    rw [readValue]
    rfl
  | .bool false, fuel + 1, depth, rest, _, _, _, _ => by
    rw [readValue]
    rfl
  | .number q, fuel + 1, depth, rest, _, _, hnumbers, hrest => by
    obtain ⟨numeral, hread, hvalue⟩ := hnumbers q (by simp [numbers])
    obtain ⟨c, cs, hcs, hc⟩ := Numeral.read_cons hread
    have hlocal := Numeral.read_append hrest hread
    rw [hcs] at hlocal
    rw [chars, hcs, List.cons_append, readValue_numeral hc, ← List.cons_append, hlocal]
    simp [numberDatum, hvalue, Datum.ofJson]
  | .string s, fuel + 1, depth, rest, _, _, _, _ => by
    obtain ⟨pieces, hread, htext⟩ := stringPieces_stringChars s rest
    rw [readValue]
    change (stringPieces ((stringChars s).tail ++ rest)).map _ = _
    rw [hread, Option.map_some, htext]
    rfl
  | .array [], fuel + 1, depth, rest, _, hdepth, _, _ => by
    have hpos : 0 < depth := by simp [Datum.ofJson, Datum.depth] at hdepth; omega
    rw [readValue]
    change some (nested depth (.seq []), rest) = _
    rw [nested_of_pos hpos]
    rfl
  | .array (item :: items), fuel + 1, depth, rest, hfuel, hdepth, hnumbers, hrest => by
    have hbound : Datum.itemsDepth (Datum.ofItems (item :: items)) + 1 ≤ depth := hdepth
    have hitems := readItems_itemsChars (item :: items) fuel (depth - 1) rest (by simp)
      (by simp [chars] at hfuel; omega) (by omega) hnumbers
    obtain ⟨c, cs, hcs, hgap, hc⟩ := itemsChars_cons item items hnumbers
    rw [hcs, List.cons_append] at hitems
    rw [chars, hcs, List.cons_append, List.append_assoc, List.cons_append, List.singleton_append,
      readValue_array _ _ hgap hc, hitems, Option.map_some, nested_of_pos (by omega)]
    rfl
  | .object [], fuel + 1, depth, rest, _, hdepth, _, _ => by
    have hpos : 0 < depth := by simp [Datum.ofJson, Datum.depth] at hdepth; omega
    rw [readValue]
    change some (nested depth (.map []), rest) = _
    rw [nested_of_pos hpos]
    rfl
  | .object ((key, value) :: members), fuel + 1, depth, rest, hfuel, hdepth, hnumbers, hrest => by
    have hbound : Datum.entriesDepth (Datum.ofMembers ((key, value) :: members)) + 1 ≤ depth :=
      hdepth
    have hmembers := readMembers_membersChars ((key, value) :: members) fuel (depth - 1) rest
      (by simp) (by simp [chars] at hfuel; omega) (by omega) hnumbers
    obtain ⟨cs, hcs⟩ := membersChars_cons key value members
    rw [hcs, List.cons_append] at hmembers
    rw [chars, hcs, List.cons_append, List.append_assoc, List.cons_append, List.singleton_append,
      readValue_object, hmembers, Option.map_some, nested_of_pos (by omega)]
    rfl

theorem readItems_itemsChars : ∀ (items : List Json) (fuel depth : Nat) (rest : List Char),
    items ≠ [] → 2 * (itemsChars items).length + 1 ≤ fuel →
    Datum.itemsDepth (Datum.ofItems items) ≤ depth →
    (∀ q ∈ itemsNumbers items, q.Legible) →
    readItems fuel depth (itemsChars items ++ ']' :: rest) = some (Datum.ofItems items, rest)
  | [], _, _, _, hne, _, _, _ => absurd rfl hne
  | _ :: _, 0, _, _, _, hfuel, _, _ => by omega
  | [item], fuel + 1, depth, rest, _, hfuel, hdepth, hnumbers => by
    have hitem := readValue_chars item fuel depth (']' :: rest)
      (by simp [itemsChars] at hfuel; omega)
      (by simpa [Datum.ofItems, Datum.itemsDepth] using hdepth)
      (fun q hq => hnumbers q (by simpa [itemsNumbers] using hq)) (closed_cons (by simp) rest)
    rw [readItems, itemsChars, hitem]
    rfl
  | item :: next :: items, fuel + 1, depth, rest, _, hfuel, hdepth, hnumbers => by
    have hsplit : Datum.depth (.ofJson item) ≤ depth ∧
        Datum.itemsDepth (Datum.ofItems (next :: items)) ≤ depth := max_le_iff.mp hdepth
    rw [itemsChars_cons_cons, List.length_append, List.length_cons] at hfuel
    have hitem := readValue_chars item fuel depth
      (',' :: (itemsChars (next :: items) ++ ']' :: rest))
      (by omega) hsplit.1 (fun q hq => hnumbers q (by simp [itemsNumbers, hq]))
      (closed_cons (by simp) _)
    have hitems := readItems_itemsChars (next :: items) fuel depth rest (by simp) (by omega)
      hsplit.2 (fun q hq => hnumbers q (by rw [itemsNumbers]; exact List.mem_append_right _ hq))
    rw [readItems, itemsChars_cons_cons, List.append_assoc, List.cons_append, hitem]
    change (readItems fuel depth (itemsChars (next :: items) ++ ']' :: rest)).map _ = _
    rw [hitems]
    rfl

theorem readMembers_membersChars :
    ∀ (members : List (String × Json)) (fuel depth : Nat) (rest : List Char),
    members ≠ [] → 2 * (membersChars members).length + 1 ≤ fuel →
    Datum.entriesDepth (Datum.ofMembers members) ≤ depth →
    (∀ q ∈ membersNumbers members, q.Legible) →
    readMembers fuel depth (membersChars members ++ '\x7d' :: rest)
      = some (Datum.ofMembers members, rest)
  | [], _, _, _, hne, _, _, _ => absurd rfl hne
  | _ :: _, 0, _, _, _, hfuel, _, _ => by omega
  | [(key, value)], fuel + 1, depth, rest, _, hfuel, hdepth, hnumbers => by
    have hvalue := readValue_chars value fuel depth ('\x7d' :: rest)
      (by simp [membersChars] at hfuel; omega)
      (by simpa [Datum.ofMembers, Datum.entriesDepth, Datum.depth] using hdepth)
      (fun q hq => hnumbers q (by simpa [membersNumbers] using hq)) (closed_cons (by simp) rest)
    rw [membersChars, List.append_assoc, List.cons_append]
    exact readMembers_stringChars hvalue (.inr ⟨rest, rfl, rfl⟩)
  | (key, value) :: next :: members, fuel + 1, depth, rest, _, hfuel, hdepth, hnumbers => by
    have hsplit := max_le_iff.mp hdepth
    rw [membersChars_cons_cons] at hfuel
    simp only [List.length_append, List.length_cons] at hfuel
    have hvalue := readValue_chars value fuel depth
      (',' :: (membersChars (next :: members) ++ '\x7d' :: rest))
      (by omega) (max_le_iff.mp hsplit.1).2
      (fun q hq => hnumbers q (by simp [membersNumbers, hq])) (closed_cons (by simp) _)
    have hmembers := readMembers_membersChars (next :: members) fuel depth rest (by simp)
      (by omega) hsplit.2
      (fun q hq => hnumbers q (by rw [membersNumbers]; exact List.mem_append_right _ hq))
    rw [membersChars_cons_cons, List.append_assoc, List.cons_append, List.append_assoc,
      List.cons_append]
    exact readMembers_stringChars hvalue (.inl ⟨_, rfl, by rw [hmembers]; rfl⟩)

end

/-- A text that was written reads as the value it was written for. -/
theorem read_render {v : Json} (hdepth : (Datum.ofJson v).depth ≤ nestingLimit)
    (hnumbers : ∀ q ∈ v.numbers, q.Legible) : read v.render = some (.ofJson v) := by
  have hvalue := readValue_chars v (2 * (chars v).length + 2) nestingLimit [] (by omega) hdepth
    hnumbers closed_nil
  rw [List.append_nil] at hvalue
  rw [read, render, String.toList_ofList, readChars, hvalue]
  rfl

/-! ## Floats -/

theorem nested_ne_number {depth : Nat} {d : Datum} {q : Quantity} (h : d ≠ .number q) :
    nested depth d ≠ .number q := by
  rw [nested]
  split
  · simp
  · exact h

/-- Only a numeral reads as a number. -/
theorem readValue_number {fuel depth : Nat} {cs rest : List Char} {q : Quantity}
    (h : readValue fuel depth cs = some (.number q, rest)) :
    ∃ numeral, Numeral.read (skipGaps cs) = some (numeral, rest) ∧ numeral.value? = some q := by
  cases fuel with
  | zero => simp [readValue] at h
  | succ fuel =>
    rw [readValue] at h
    split at h
    · simp at h
    · simp at h
    · simp at h
    · obtain ⟨r, -, hr⟩ := Option.map_eq_some_iff.mp h
      simp only [stringDatum, Prod.mk.injEq] at hr
      split at hr <;> simp at hr
    · split at h
      · simp [nested_ne_number] at h
      · obtain ⟨r, -, hr⟩ := Option.map_eq_some_iff.mp h
        exact absurd (congrArg Prod.fst hr) (nested_ne_number (by simp))
    · split at h
      · simp [nested_ne_number] at h
      · obtain ⟨r, -, hr⟩ := Option.map_eq_some_iff.mp h
        exact absurd (congrArg Prod.fst hr) (nested_ne_number (by simp))
    · obtain ⟨r, hread, hr⟩ := Option.map_eq_some_iff.mp h
      simp only [numberDatum, Prod.mk.injEq] at hr
      obtain ⟨hvalue, rfl⟩ := hr
      split at hvalue
      · rename_i n hn
        obtain rfl : n = q := by simpa using hvalue
        exact ⟨r.1, hread, hn⟩
      · simp at hvalue

theorem not_isGap_decimalText {n : Nat} : ∀ c ∈ Number.decimalText n, isGap c = false :=
  fun _ hc => not_isGap_of_numeral (.inr (Nat.isDigit_of_mem_toDigits (by omega) (by omega) hc))

theorem not_isGap_positional (d : Number.Digits) :
    ∀ c ∈ Number.positional .json d, isGap c = false := by
  have hdigits := not_isGap_decimalText (n := d.coefficient)
  intro c hc
  simp only [Number.positional] at hc
  split at hc
  · simp only [List.mem_append, List.mem_cons, List.mem_replicate, List.not_mem_nil, or_false] at hc
    rcases hc with ((rfl | rfl) | ⟨-, rfl⟩) | hc
    · rfl
    · rfl
    · rfl
    · exact hdigits c hc
  · split at hc
    · simp only [List.mem_append, List.mem_replicate] at hc
      rcases hc with (hc | ⟨-, rfl⟩) | hc
      · exact hdigits c hc
      · rfl
      · rw [show Number.Layout.json.wholeFraction = true from rfl] at hc
        simp only [if_true, List.mem_cons, List.not_mem_nil, or_false] at hc
        rcases hc with rfl | rfl <;> rfl
    · simp only [List.mem_append, List.mem_singleton] at hc
      rcases hc with (hc | rfl) | hc
      · exact hdigits c (List.mem_of_mem_take hc)
      · rfl
      · exact hdigits c (List.mem_of_mem_drop hc)

theorem not_isGap_scientific (d : Number.Digits) :
    ∀ c ∈ Number.scientific .json d, isGap c = false := by
  have hdigits := not_isGap_decimalText (n := d.coefficient)
  intro c hc
  simp only [Number.scientific, List.mem_append, List.mem_singleton] at hc
  rcases hc with ((hc | rfl) | hc) | hc
  · split at hc
    · rename_i heq
      rw [heq] at hdigits
      simp only [List.mem_cons] at hc hdigits
      rcases hc with hc | rfl | hc
      · exact hdigits c (.inl hc)
      · rfl
      · exact hdigits c (.inr hc)
    · exact hdigits c hc
  · rfl
  · split at hc
    · obtain rfl : c = '-' := by simpa using hc
      rfl
    · obtain rfl : c = '+' := by simpa [Number.Layout.json] using hc
      rfl
  · exact not_isGap_decimalText c hc

theorem not_isGap_floatChars (x : Float) : ∀ c ∈ Number.floatChars .json x, isGap c = false := by
  have hnull : ∀ c ∈ ['n', 'u', 'l', 'l'], isGap c = false := by simp [isGap]
  have hdigits : ∀ d, ∀ c ∈ Number.digitsText .json d, isGap c = false := by
    intro d
    simp only [Number.digitsText, Number.Layout.json]
    split
    · exact not_isGap_positional d
    · exact not_isGap_scientific d
  rw [Number.floatChars]
  split
  · exact hnull
  · exact hnull
  · exact hnull
  · rename_i negative m q _
    have hunsigned : ∀ c ∈ (if m = 0 then ['0', '.', '0']
        else Number.digitsText .json (Number.shortest .even m q)), isGap c = false := by
      split
      · simp [isGap]
      · exact hdigits _
    cases negative with
    | false => exact hunsigned
    | true => exact List.forall_mem_cons.mpr ⟨rfl, hunsigned⟩

end Json

/-- The text of the float reads as this float. -/
def Number.ReadsBack (x : Float) : Prop :=
  Json.read (Number.floatText .json x) = some (.number (.float x))

open Json in
theorem Number.ReadsBack.legible {x : Float} (h : Number.ReadsBack x) :
    (Quantity.float x).Legible := by
  have hgap := not_isGap_floatChars x
  rw [Number.ReadsBack, Json.read, Number.floatText, String.toList_ofList, readChars] at h
  split at h
  · rename_i value rest hread
    split at h
    · rename_i hrest
      obtain rfl : value = .number (.float x) := by simpa using h
      obtain ⟨numeral, hnumeral, hvalue⟩ := readValue_number hread
      -- There are no blanks in the text, so none were skipped before or after the numeral.
      rw [skipGaps_of_not_isGap hgap] at hnumeral
      have hrest' : skipGaps rest = rest :=
        skipGaps_of_not_isGap fun c hc => hgap c ((Numeral.read_suffix hnumeral).mem hc)
      rw [hrest', List.isEmpty_iff] at hrest
      subst hrest
      exact ⟨numeral, hnumeral, hvalue⟩
    · simp at h
  · simp at h

theorem Number.readsBack_of_legible {x : Float} (h : (Quantity.float x).Legible) :
    Number.ReadsBack x :=
  Json.read_render (v := .number (.float x)) (Nat.zero_le _) (by simpa [Json.numbers] using h)

end ScoringTree
