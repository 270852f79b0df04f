import Mathlib.Data.List.TakeWhile
import ScoringTree.Proofs.PlainLine

/-!
# ScoringTree.Proofs.ScalarWidth

How much text a scalar takes.

The text of a scalar is never longer than what it is written as. It is as long only if it is plain
and stands on one line; then it is what is written. All this is said of scalars that begin in a line
of text and cannot reach beyond the lines after it, since the word behind those is not indented.

* `Gap.width`, `BlockText.size`
                            — how many characters have been used up for what has been read.
* `plainFrom_inline`        — plain scalars.
* `block?_length_le`        — block scalars.
* `singleQuotedFrom_split`, `doubleQuotedFrom_split`
                            — quoted scalars, as far as they end before that word.
* `Cursor.Passes`           — reading on within a line.
-/

namespace ScoringTree
namespace Yaml

/-! ## Gaps -/

namespace Gap

def width : Gap → Nat
  | .inline blanks => blanks.length
  | .folded first more => first.toList.length + more.length

@[simp]
theorem width_empty : Gap.empty.width = 0 := rfl

theorem length_contents_le (gap : Gap) : gap.contents.length ≤ gap.width := by
  unfold contents
  split <;> simp [width, Nat.add_comm]

theorem width_addBlank_le (gap : Gap) (c : Char) : (gap.addBlank c).width ≤ gap.width + 1 := by
  cases gap <;> simp [addBlank, width]

theorem width_addBreak_le (gap : Gap) (c : Char) : (gap.addBreak c).width ≤ gap.width + 1 := by
  cases gap <;> simp [addBreak, width]
  omega

end Gap

/-! ## Plain scalars -/

section Plain

variable {indent : Nat} {rest : List Char}

/-- What a plain scalar does with the next character. -/
inductive PlainStep (indent : Nat) (text : List Char) (gap : Gap) (inGap : Bool) (place : Position)
    (c : Char) (cs : List Char) (scalar : PlainScalar) : Prop where
  | blank : isBlank c = true →
      plainFrom false indent text (gap.addBlank c) true (place.after c) cs = some scalar →
      PlainStep indent text gap inGap place c cs scalar
  | newline : isBreak c = true →
      plainFrom false indent text (gap.addBreak c) true (place.after c) cs = some scalar →
      PlainStep indent text gap inGap place c cs scalar
  | stop : scalar.text = text.reverse → PlainStep indent text gap inGap place c cs scalar
  | word : isBlank c = false → isBreak c = false →
      (inGap && endsAfterGap false indent place.column (c :: cs)) = false →
      endsPlain false (c :: cs) = false →
      plainFrom false indent (c :: (gap.contents ++ text)) .empty false (place.after c) cs =
        some scalar →
      PlainStep indent text gap inGap place c cs scalar

theorem plainStep_of_plainFrom {text : List Char} {gap : Gap} {inGap : Bool} {place : Position}
    {c : Char} {cs : List Char} {scalar : PlainScalar}
    (h : plainFrom false indent text gap inGap place (c :: cs) = some scalar) :
    PlainStep indent text gap inGap place c cs scalar := by
  rw [plainFrom] at h
  split at h
  · rename_i hblank
    split at h
    · cases h
    · exact .blank hblank h
  · rename_i hblank
    split at h
    · rename_i hbreak
      exact .newline hbreak h
    · rename_i hbreak
      split at h
      · cases h
        exact .stop rfl
      · rename_i hends
        split at h
        · cases h
        · split at h
          · cases h
            exact .stop rfl
          · rename_i hplain
            exact .word (by simpa using hblank) (by simpa using hbreak) (by simpa using hends)
              (by simpa using hplain) h

/-- A scalar ends with the lines that begin before a word that is not indented. -/
theorem plainFrom_newline (hindent : 0 < indent) (hrest : ∀ c ∈ rest.head?, isGap c = false)
    {text : List Char} {gap : Gap} {inGap : Bool} {place : Position} {scalar : PlainScalar}
    (h : plainFrom false indent text gap inGap place ('\n' :: rest) = some scalar) :
    scalar.text = text.reverse := by
  obtain ⟨gap', place', -, -, hends⟩ := plainFrom_breaks hindent text rest hrest 0 gap inGap place
  cases hends.symm.trans h
  rfl

theorem plainFrom_length_le (hindent : 0 < indent) (hrest : ∀ c ∈ rest.head?, isGap c = false)
    {text : List Char} {gap : Gap} {inGap : Bool} {place : Position} {line : List Char}
    {scalar : PlainScalar}
    (h : plainFrom false indent text gap inGap place (line ++ '\n' :: rest) = some scalar) :
    scalar.text.length ≤ text.length + gap.width + line.length := by
  induction line generalizing text gap inGap place with
  | nil =>
    rw [plainFrom_newline hindent hrest h, List.length_reverse]
    omega
  | cons c cs ih =>
    rw [List.cons_append] at h
    rw [List.length_cons]
    cases plainStep_of_plainFrom h with
    | blank _ hread =>
      have hle := ih hread
      have hwidth := gap.width_addBlank_le c
      omega
    | newline _ hread =>
      have hle := ih hread
      have hwidth := gap.width_addBreak_le c
      omega
    | stop hstop =>
      rw [hstop, List.length_reverse]
      omega
    | word _ _ _ _ hread =>
      have hle := ih hread
      have hwidth := gap.length_contents_le
      simp only [List.length_cons, List.length_append, Gap.width_empty] at hle
      omega

/-- A scalar that goes on behind a line break has lost at least the indentation. -/
theorem plainFrom_length_lt (hindent : 0 < indent) (hrest : ∀ c ∈ rest.head?, isGap c = false)
    {text : List Char} {gap : Gap} {place : Position} {line : List Char} {scalar : PlainScalar}
    (hfolded : gap.isFolded = true) (hwidth : 0 < gap.width) (hcolumn : place.column = 0)
    (h : plainFrom false indent text gap true place (line ++ '\n' :: rest) = some scalar) :
    scalar.text.length < text.length + gap.width + line.length := by
  induction line generalizing gap place with
  | nil =>
    rw [plainFrom_newline hindent hrest h, List.length_reverse]
    omega
  | cons c cs ih =>
    rw [List.cons_append] at h
    rw [List.length_cons]
    cases plainStep_of_plainFrom h with
    | blank _ hread =>
      have hle := plainFrom_length_le hindent hrest hread
      have hsame : (gap.addBlank c).width = gap.width := by
        cases gap with
        | inline blanks => cases hfolded
        | folded first more => rfl
      omega
    | newline hbreak hread =>
      have hmore : (gap.addBreak c).width = gap.width + 1 := by
        cases gap with
        | inline blanks => cases hfolded
        | folded first more => simp [Gap.addBreak, Gap.width, Nat.add_assoc]
      have hcolumn' : (place.after c).column = 0 := by simp [Position.after, hbreak]
      have hlt := ih (by cases gap <;> rfl) (by omega) hcolumn' hread
      omega
    | stop hstop =>
      rw [hstop, List.length_reverse]
      omega
    | word _ _ hends =>
      simp [endsAfterGap, hcolumn, hindent] at hends

/-- A scalar as long as what it is written as is what is written, a plain scalar on one line. -/
theorem plainFrom_inline (hindent : 0 < indent) (hrest : ∀ c ∈ rest.head?, isGap c = false)
    {text blanks : List Char} {inGap : Bool} {place : Position} {line : List Char}
    {scalar : PlainScalar} (hblanks : inGap = false ↔ blanks = [])
    (h : plainFrom false indent text (.inline blanks) inGap place (line ++ '\n' :: rest) =
      some scalar) :
    scalar.text.length < text.length + blanks.length + line.length ∨
      (isPlainRest inGap line = true ∧ scalar.text = text.reverse ++ (blanks.reverse ++ line)) := by
  induction line generalizing text blanks inGap place with
  | nil =>
    rw [plainFrom_newline hindent hrest h, List.length_reverse, List.length_nil]
    cases inGap with
    | false =>
      rw [hblanks.mp rfl]
      exact .inr ⟨rfl, by simp⟩
    | true =>
      have hsome : 0 < blanks.length := by
        rw [List.length_pos_iff]
        intro hnil
        cases hblanks.mpr hnil
      exact .inl (by omega)
  | cons c cs ih =>
    rw [List.cons_append] at h
    rw [List.length_cons]
    cases plainStep_of_plainFrom h with
    | blank hblank hread =>
      have hbreak : isBreak c = false := by
        simp only [isBlank, Bool.or_eq_true, beq_iff_eq] at hblank
        rcases hblank with rfl | rfl <;> rfl
      rcases ih (by simp) hread with hlt | ⟨hplain, htext⟩
      · rw [List.length_cons] at hlt
        exact .inl (by omega)
      · refine .inr ⟨?_, ?_⟩
        · rw [isPlainRest, hbreak, if_pos hblank, hplain]
          rfl
        · rw [htext]
          simp
    | newline hbreak hread =>
      have hcolumn : (place.after c).column = 0 := by simp [Position.after, hbreak]
      have hlt := @plainFrom_length_lt indent rest hindent hrest text (.folded (some c) [])
        (place.after c) cs scalar rfl Nat.one_pos hcolumn hread
      have hone : (Gap.folded (some c) []).width = 1 := rfl
      exact .inl (by omega)
    | stop hstop =>
      rw [hstop, List.length_reverse]
      exact .inl (by omega)
    | word hblank hbreak hends hcolon hread =>
      have hgap : atGap (cs ++ '\n' :: rest) = atGap cs := by
        cases cs <;> rfl
      have hcomment : (inGap && c == '#') = false := by
        cases inGap with
        | false => rfl
        | true =>
          rw [Bool.true_and, beq_eq_false_iff_ne]
          rintro rfl
          simp [endsAfterGap] at hends
      rw [endsPlain, hgap, Bool.false_and, Bool.or_false] at hcolon
      rcases @ih (c :: (Gap.contents (.inline blanks) ++ text)) [] false (place.after c)
        (by simp) hread with hlt | ⟨hplain, htext⟩
      · simp only [Gap.contents, List.length_cons, List.length_append, List.length_nil] at hlt
        exact .inl (by omega)
      · refine .inr ⟨?_, ?_⟩
        · simp [isPlainRest, hbreak, hblank, hcomment, hcolon, hplain]
        · rw [htext]
          simp [Gap.contents]

end Plain

/-! ## Within a line -/

theorem not_isBreak {c : Char} (h : ∀ b ∈ ['\n', '\u2028', '\u2029'], c ≠ b) :
    isBreak c = false := by
  simpa [isBreak, and_assoc] using h

namespace Cursor

/-- Between the cursors there is no line break. -/
def Passes (cursor next : Cursor) : Prop :=
  ∃ line, cursor.rest = line ++ next.rest ∧ ∀ c ∈ line, isBreak c = false

namespace Passes

variable {cursor between next : Cursor}

theorem refl (cursor : Cursor) : cursor.Passes cursor := ⟨[], rfl, by simp⟩

theorem trans (h : cursor.Passes between) (h' : between.Passes next) : cursor.Passes next := by
  obtain ⟨line, hrest, hline⟩ := h
  obtain ⟨line', hrest', hline'⟩ := h'
  refine ⟨line ++ line', by rw [hrest, hrest', List.append_assoc], fun c hc => ?_⟩
  exact (List.mem_append.mp hc).elim (hline c) (hline' c)

/-- What lies behind the line is not reached. -/
theorem of_newline (h : cursor.Passes next) {line rest : List Char}
    (hrest : cursor.rest = line ++ '\n' :: rest) :
    ∃ more, next.rest = more ++ '\n' :: rest ∧ more <:+ line := by
  obtain ⟨passed, hpassed, hbreak⟩ := h
  rw [hrest, List.append_eq_append_iff] at hpassed
  rcases hpassed with ⟨beyond, hbeyond, hnext⟩ | ⟨more, hmore, hnext⟩
  · cases beyond with
    | nil => exact ⟨[], hnext.symm, List.nil_suffix⟩
    | cons c cs =>
      obtain ⟨rfl, -⟩ := List.cons.inj hnext
      have hc := hbreak '\n' (by rw [hbeyond]; simp)
      cases hc
  · exact ⟨more, hnext, passed, hmore.symm⟩

end Passes

theorem passes_forward (cursor : Cursor) (count : Nat)
    (h : ∀ c ∈ cursor.rest.take count, isBreak c = false) : cursor.Passes (cursor.forward count) :=
  ⟨cursor.rest.take count, (List.take_append_drop count cursor.rest).symm, h⟩

theorem passes_skipWhile {p : Char → Bool} (hp : ∀ c, p c = true → isBreak c = false)
    (cursor : Cursor) : cursor.Passes (cursor.skipWhile p) := by
  apply passes_forward
  intro c hc
  have hspan : cursor.rest.take (cursor.span p).length = cursor.span p :=
    (List.prefix_iff_eq_take.mp (List.takeWhile_prefix p)).symm
  rw [hspan] at hc
  exact hp c (List.mem_takeWhile_imp hc)

/-- Past a comment, if one begins here. -/
def skipComment (cursor : Cursor) : Cursor :=
  match cursor.rest with
  | '#' :: _ => cursor.skipWhile fun c => !isBreak c
  | _ => cursor

theorem passes_skipComment (cursor : Cursor) : cursor.Passes cursor.skipComment := by
  unfold skipComment
  split
  · exact passes_skipWhile (by simp) cursor
  · exact .refl _

/-- At the end of the line, if anything is left. -/
theorem endLine?_cases {cursor next : Cursor} (h : cursor.endLine? = some next) :
    ∃ between, cursor.Passes between ∧ (between.rest = [] ∨
      ∃ c cs, between.rest = c :: cs ∧ isBreak c = true ∧ next = between.forward 1) := by
  have hblank : ∀ c, isBlank c = true → isBreak c = false := by
    intro c hc
    simp only [isBlank, Bool.or_eq_true, beq_iff_eq] at hc
    rcases hc with rfl | rfl <;> rfl
  have hpasses := passes_skipWhile hblank cursor
  simp only [endLine?] at h
  refine ⟨_, hpasses.trans (passes_skipComment _), ?_⟩
  split at h
  · rename_i hnil
    exact .inl hnil
  · rename_i c cs hcons
    split at h
    · rename_i hbreak
      cases h
      exact .inr ⟨c, cs, hcons, hbreak, rfl⟩
    · cases h

end Cursor

/-! ## Properties -/

theorem not_isBreak_isNameChar {c : Char} (h : isNameChar c = true) : isBreak c = false := by
  apply not_isBreak
  rintro b hb rfl
  simp only [List.mem_cons, List.not_mem_nil, or_false] at hb
  rcases hb with rfl | rfl | rfl <;> cases h

theorem not_isBreak_isTagChar {withMarks : Bool} {c : Char} (h : isTagChar withMarks c = true) :
    isBreak c = false := by
  apply not_isBreak
  rintro b hb rfl
  simp only [List.mem_cons, List.not_mem_nil, or_false] at hb
  cases withMarks <;> rcases hb with rfl | rfl | rfl <;> cases h

theorem passes_name? {cursor next : Cursor} {name : String}
    (h : name? cursor = some (name, next)) : cursor.Passes next := by
  simp only [name?] at h
  split at h
  · cases h
  · cases h
    exact Cursor.passes_skipWhile (fun _ => not_isBreak_isNameChar) cursor

theorem passes_handleText {cursor : Cursor} (hhead : ∀ c ∈ cursor.rest.head?, isBreak c = false) :
    cursor.Passes (handleText cursor).2 := by
  have hone : cursor.Passes (cursor.forward 1) := by
    apply cursor.passes_forward
    cases hrest : cursor.rest with
    | nil => simp
    | cons c cs => simpa [hrest] using hhead
  have hname := hone.trans (Cursor.passes_skipWhile (fun _ => not_isBreak_isNameChar) _)
  simp only [handleText]
  split
  · rename_i rest hrest
    refine hname.trans (Cursor.passes_forward _ 1 ?_)
    rw [hrest]
    simp [isBreak]
  · exact hname

theorem passes_tagText? {withMarks : Bool} {cursor next : Cursor} {bytes : List UInt8}
    (h : tagText? withMarks cursor = some (bytes, next)) : cursor.Passes next := by
  obtain ⟨_, -, hnext⟩ := Option.map_eq_some_iff.mp h
  cases hnext
  exact Cursor.passes_skipWhile (fun _ => not_isBreak_isTagChar) cursor

theorem passes_fullTag? {cursor next : Cursor} {token : Token}
    (h : fullTag? cursor = some (token, next)) :
    cursor.Passes next ∧ ∃ handle suffix, token = .tag handle suffix := by
  unfold fullTag? at h
  split at h
  · rename_i bytes after htext
    split at h
    · rename_i rest hrest
      split at h
      · cases h
      · cases h
        refine ⟨(passes_tagText? htext).trans (Cursor.passes_forward _ 1 ?_), _, _, rfl⟩
        rw [hrest]
        simp [isBreak]
    · cases h
  · cases h

theorem passes_shortTag? {cursor next : Cursor} {token : Token}
    (hhead : ∀ c ∈ cursor.rest.head?, isBreak c = false)
    (h : shortTag? cursor = some (token, next)) :
    cursor.Passes next ∧ ∃ handle suffix, token = .tag handle suffix := by
  have hhandle := passes_handleText hhead
  simp only [shortTag?] at h
  split at h
  · cases h
  · rename_i bytes last htext
    have hpasses := hhandle.trans (passes_tagText? htext)
    split at h
    · split at h
      · cases h
      · cases h
        exact ⟨hpasses, _, _, rfl⟩
    · split at h
      · cases h
        exact ⟨hpasses, _, _, rfl⟩
      · cases h
        exact ⟨hpasses, _, _, rfl⟩

/-- A tag in either form, whatever follows it. -/
def anyTag? (cursor : Cursor) : Option (Token × Cursor) :=
  match cursor.rest with
  | _ :: '<' :: _ => fullTag? (cursor.forward 2)
  | _ => shortTag? cursor

theorem passes_anyTag? {cursor next : Cursor} {token : Token}
    (hhead : ∀ c ∈ cursor.rest.head?, isBreak c = false)
    (h : anyTag? cursor = some (token, next)) :
    cursor.Passes next ∧ ∃ handle suffix, token = .tag handle suffix := by
  unfold anyTag? at h
  split at h
  · rename_i c rest hrest
    obtain ⟨hpasses, htoken⟩ := passes_fullTag? h
    refine ⟨(cursor.passes_forward 2 ?_).trans hpasses, htoken⟩
    rw [hrest]
    simpa [isBreak] using hhead c (by rw [hrest]; rfl)
  · exact passes_shortTag? hhead h

theorem passes_tag? {inFlow : Bool} {cursor next : Cursor} {token : Token}
    (hhead : ∀ c ∈ cursor.rest.head?, isBreak c = false)
    (h : tag? inFlow cursor = some (token, next)) :
    cursor.Passes next ∧ ∃ handle suffix, token = .tag handle suffix := by
  simp only [tag?] at h
  split at h
  · rename_i found after hfound
    split at h
    · cases h
      exact passes_anyTag? hhead hfound
    · cases h
  · cases h

/-! ## Block scalars -/

namespace BlockText

def size (block : BlockText) : Nat :=
  block.text.length + block.lastBreak.toList.length + block.breaks.length

theorem length_joined_le (block : BlockText) (folds nextIsBlank : Bool) :
    (block.joined folds nextIsBlank).length ≤ block.size := by
  unfold joined
  split
  · rename_i hfolds
    simp only [Bool.and_eq_true, beq_iff_eq] at hfolds
    split <;> simp [size, hfolds.1.1.2]
    omega
  · simp [size]
    omega

theorem length_chomped_le (block : BlockText) (chomping : Chomping) :
    (block.chomped chomping).length ≤ block.size := by
  cases chomping <;> simp [chomped, size] <;> omega

end BlockText

/-- A block ends before a word that is not indented. -/
theorem blockFrom_outside {folds : Bool} {least indent widest : Nat} {block : BlockText}
    {place : Position} {rest : List Char} (hrest : ∀ c ∈ rest.head?, isGap c = false)
    (hplace : place.column = 0) :
    blockFrom folds least block (.before indent widest) place rest =
      some (block, ⟨place, rest⟩) := by
  cases rest with
  | nil => rfl
  | cons c cs =>
    have hc := hrest c rfl
    simp only [isGap, isBlank, Bool.or_eq_false_iff, beq_eq_false_iff_ne] at hc
    have hpos : 0 ≠ if (indent == 0) = true then max (max (max widest 0) least) 1
        else indent := by
      split
      · omega
      · rename_i hindent
        rw [beq_iff_eq] at hindent
        exact Ne.symm hindent
    rw [blockFrom]
    simp only [hplace]
    rw [if_neg (by simp [hc.1.1]), if_neg (by simp [hc.1.2]), if_neg (by simp [hc.2]),
      if_neg (by rw [beq_iff_eq]; exact hpos)]

/-- What a block does with the next character before a line of it. -/
theorem blockFrom_before {folds : Bool} {least indent widest : Nat} {block out : BlockText}
    {place : Position} {c : Char} {cs : List Char} {next : Cursor}
    (h : blockFrom folds least block (.before indent widest) place (c :: cs) = some (out, next)) :
    out = block ∨ ∃ grown state, grown.size ≤ block.size + 1 ∧
      blockFrom folds least grown state (place.after c) cs = some (out, next) := by
  rw [blockFrom] at h
  dsimp only at h
  split at h
  · exact .inr ⟨block, _, Nat.le_succ _, h⟩
  · split at h
    · cases h
    · split at h
      · refine .inr ⟨_, _, ?_, h⟩
        simp [BlockText.size, Nat.add_assoc]
      · generalize (if (indent == 0) = true then max (max (max widest place.column) least) 1
          else indent) = shown at h
        split at h
        · refine .inr ⟨_, _, ?_, h⟩
          have hjoined := block.length_joined_le folds (isBlank c)
          simp only [BlockText.size, List.length_cons, Option.toList_none,
            List.length_nil] at hjoined ⊢
          omega
        · cases h
          exact .inl rfl

theorem blockFrom_size_le {folds : Bool} {least : Nat} {rest : List Char}
    (hrest : ∀ c ∈ rest.head?, isGap c = false) {block out : BlockText} {state : BlockState}
    {place : Position} {line : List Char} {next : Cursor}
    (h : blockFrom folds least block state place (line ++ '\n' :: rest) = some (out, next)) :
    out.size ≤ block.size + line.length + 1 := by
  induction line generalizing block state place with
  | nil =>
    have hbreak : isBreak '\n' = true := rfl
    cases state with
    | inside indent =>
      rw [List.nil_append, blockFrom, if_pos hbreak, blockFrom_outside hrest rfl] at h
      cases h
      simp [BlockText.size]
      omega
    | before indent widest =>
      rw [List.nil_append, blockFrom] at h
      dsimp only at h
      rw [if_neg (by simp), if_neg (by simp), if_pos hbreak, blockFrom_outside hrest rfl] at h
      cases h
      simp [BlockText.size, Nat.add_assoc]
  | cons c cs ih =>
    rw [List.cons_append] at h
    rw [List.length_cons]
    cases state with
    | inside indent =>
      rw [blockFrom] at h
      split at h
      · have hle := ih h
        simp [BlockText.size] at hle ⊢
        omega
      · have hle := ih h
        simp [BlockText.size] at hle ⊢
        omega
    | before indent widest =>
      rcases blockFrom_before h with rfl | ⟨grown, state, hgrown, hread⟩
      · omega
      · have hle := ih hread
        omega

theorem BlockHeader.not_isBreak_chomping? {c : Char} {chomping : Chomping}
    (h : chomping? c = some chomping) : isBreak c = false := by
  apply not_isBreak
  rintro b hb rfl
  simp only [List.mem_cons, List.not_mem_nil, or_false] at hb
  rcases hb with rfl | rfl | rfl <;> cases h

theorem not_isBreak_isDigit {c : Char} (h : c.isDigit = true) : isBreak c = false := by
  apply not_isBreak
  rintro b hb rfl
  simp only [List.mem_cons, List.not_mem_nil, or_false] at hb
  rcases hb with rfl | rfl | rfl <;> cases h

theorem BlockHeader.passes_read? {cursor next : Cursor} {header : BlockHeader}
    (h : BlockHeader.read? cursor = some (header, next)) : cursor.Passes next := by
  unfold read? at h
  split at h
  · cases h
    exact .refl _
  · rename_i c cs hcons
    have hone : isBreak c = false → cursor.Passes (cursor.forward 1) := by
      intro hc
      apply cursor.passes_forward
      simp [hcons, hc]
    have htwo : ∀ d, isBreak c = false → isBreak d = false → cs.head? = some d →
        cursor.Passes (cursor.forward 2) := by
      intro d hc hd hhead
      obtain ⟨ds, rfl⟩ := List.head?_eq_some_iff.mp hhead
      apply cursor.passes_forward
      simp [hcons, hc, hd]
    split at h
    · rename_i chomping hchomping
      have hc := not_isBreak_chomping? hchomping
      split at h
      · rename_i d ds
        split at h
        · cases h
        · split at h
          · rename_i hdigit
            cases h
            exact htwo d hc (not_isBreak_isDigit hdigit) rfl
          · cases h
            exact hone hc
      · cases h
        exact hone hc
    · split at h
      · cases h
      · split at h
        · rename_i hdigit
          have hc := not_isBreak_isDigit hdigit
          split at h
          · rename_i chomping hchomping
            cases h
            obtain ⟨d, hhead, hd⟩ := Option.bind_eq_some_iff.mp hchomping
            exact htwo d hc (not_isBreak_chomping? hd) hhead
          · cases h
            exact hone hc
        · cases h
          exact .refl _

/-- The text of a block is shorter than what it is written as, from the indicator on. -/
theorem block?_length_le {folds : Bool} {parent : Option Nat} {line rest text : List Char}
    {cursor next : Cursor} (hrest : ∀ c ∈ rest.head?, isGap c = false)
    (hcursor : cursor.rest = line ++ '\n' :: rest)
    (h : block? folds parent cursor = some (text, next)) : text.length ≤ line.length := by
  simp only [block?, Option.bind_eq_bind, Option.bind_eq_some_iff] at h
  obtain ⟨⟨header, behind⟩, hheader, start, hstart, ⟨block, last⟩, hblock, hnext⟩ := h
  cases hnext
  change (block.chomped header.chomping).length ≤ line.length
  have hempty : BlockText.empty.size = 0 := rfl
  obtain ⟨more, hmore, hsuffix⟩ := (BlockHeader.passes_read? hheader).of_newline hcursor
  obtain ⟨between, hpasses, hends⟩ := Cursor.endLine?_cases hstart
  obtain ⟨left, hleft, hsuffix'⟩ := hpasses.of_newline hmore
  have hchomped := block.length_chomped_le header.chomping
  have hlength := (hsuffix'.trans hsuffix).length_le
  rcases hends with hnil | ⟨c, cs, hcons, hbreak, rfl⟩
  · rw [hleft] at hnil
    cases left <;> cases hnil
  · have hforward : (between.forward 1).rest = cs := by simp [Cursor.forward, hcons]
    rw [hforward] at hblock
    rw [hcons] at hleft
    cases left with
    | nil =>
      obtain ⟨-, rfl⟩ := List.cons.inj hleft
      have hcolumn : (between.forward 1).column = 0 := by
        simp [Cursor.forward, hcons, Position.after, hbreak]
      rw [blockFrom_outside hrest hcolumn] at hblock
      cases hblock
      omega
    | cons d ds =>
      obtain ⟨-, rfl⟩ := List.cons.inj hleft
      have hsize := blockFrom_size_le hrest hblock
      rw [List.length_cons] at hlength
      omega

/-! ## Quoted scalars -/

/-- A scalar in single quotes ends with a quote, and is shorter than what it is written as. -/
theorem singleQuotedFrom_split {text rest out : List Char} {gap : Gap} {place : Position}
    {next : Cursor} (h : singleQuotedFrom text gap place rest = some (out, next)) :
    ∃ front, rest = front ++ '\'' :: next.rest ∧
      out.length ≤ text.length + gap.width + front.length := by
  fun_induction singleQuotedFrom text gap place rest with
  | case1 => cases h
  | case2 text gap place cs ih =>
    obtain ⟨front, hfront, hle⟩ := ih h
    have hwidth := gap.length_contents_le
    refine ⟨'\'' :: '\'' :: front, by rw [hfront]; rfl, ?_⟩
    simp only [List.length_cons, List.length_append, Gap.width_empty] at hle ⊢
    omega
  | case3 text gap place cs hcs =>
    cases h
    have hwidth := gap.length_contents_le
    refine ⟨[], rfl, ?_⟩
    simp only [List.length_reverse, List.length_append, List.length_nil]
    omega
  | case4 text gap place c cs _ _ hblank ih =>
    obtain ⟨front, hfront, hle⟩ := ih h
    have hwidth := gap.width_addBlank_le c
    refine ⟨c :: front, by rw [hfront]; rfl, ?_⟩
    rw [List.length_cons]
    omega
  | case5 text gap place c cs _ _ _ hbreak ih =>
    obtain ⟨front, hfront, hle⟩ := ih h
    have hwidth := gap.width_addBreak_le c
    refine ⟨c :: front, by rw [hfront]; rfl, ?_⟩
    rw [List.length_cons]
    omega
  | case6 => cases h
  | case7 text gap place c cs _ _ _ _ _ ih =>
    obtain ⟨front, hfront, hle⟩ := ih h
    have hwidth := gap.length_contents_le
    refine ⟨c :: front, by rw [hfront]; rfl, ?_⟩
    simp only [List.length_cons, List.length_append, Gap.width_empty] at hle ⊢
    omega

def QuoteState.width : QuoteState → Nat
  | .words gap => gap.width
  | .escape => 0
  | .code _ _ => 0

/-- A scalar in double quotes that does not end on the line goes on through the word on the next one
to the quote behind it. -/
theorem doubleQuotedFrom_newline {text out word rest : List Char} {state : QuoteState}
    {place : Position} {next : Cursor} (hword : ∀ c ∈ word, Lexer.isPlainQuoted c = true)
    (hnonempty : word ≠ []) (hhead : ∀ c ∈ word.head?, c ≠ '-' ∧ c ≠ '.')
    (h : doubleQuotedFrom text state place ('\n' :: (word ++ ' ' :: '"' :: rest)) =
      some (out, next)) : next.rest = rest ∧ 0 < next.column := by
  have hread : ∀ gap place, doubleQuotedFrom text (.words gap) place
      (word ++ ' ' :: '"' :: rest) = some (out, next) → next.rest = rest ∧ 0 < next.column := by
    intro gap place h
    have hblank : isBlank ' ' = true := rfl
    rw [Lexer.doubleQuotedFrom_append hword hnonempty _ _ _ (.inr hhead), doubleQuotedFrom,
      if_pos hblank, Lexer.doubleQuotedFrom_quote] at h
    cases h
    refine ⟨rfl, ?_⟩
    simp [Position.after, isBreak]
  cases state with
  | words gap =>
    rw [doubleQuotedFrom] at h
    exact hread _ _ h
  | escape =>
    rw [doubleQuotedFrom] at h
    exact hread _ _ h
  | code left value =>
    rw [doubleQuotedFrom] at h
    cases h

/-- A scalar in double quotes ends on its lines, and then is shorter than what it is written as, or
it goes on to the next quote. -/
theorem doubleQuotedFrom_split {text out line word rest : List Char} {state : QuoteState}
    {place : Position} {next : Cursor} (hword : ∀ c ∈ word, Lexer.isPlainQuoted c = true)
    (hnonempty : word ≠ []) (hhead : ∀ c ∈ word.head?, c ≠ '-' ∧ c ≠ '.')
    (h : doubleQuotedFrom text state place (line ++ '\n' :: (word ++ ' ' :: '"' :: rest)) =
      some (out, next)) :
    out.length < text.length + state.width + line.length ∨
      (next.rest = rest ∧ 0 < next.column) := by
  induction line generalizing text state place with
  | nil => exact .inr (doubleQuotedFrom_newline hword hnonempty hhead h)
  | cons c cs ih =>
    rw [List.cons_append] at h
    rw [List.length_cons]
    cases state with
    | words gap =>
      have hcontents := gap.length_contents_le
      rw [doubleQuotedFrom] at h
      split at h
      · have hwidth := gap.width_addBlank_le c
        refine (ih h).imp_left fun hlt => ?_
        simp only [QuoteState.width] at hlt ⊢
        omega
      · split at h
        · have hwidth := gap.width_addBreak_le c
          refine (ih h).imp_left fun hlt => ?_
          simp only [QuoteState.width] at hlt ⊢
          omega
        · split at h
          · cases h
          · split at h
            · cases h
              left
              simp only [QuoteState.width, List.length_reverse, List.length_append]
              omega
            · split at h
              · refine (ih h).imp_left fun hlt => ?_
                simp only [QuoteState.width, List.length_append] at hlt ⊢
                omega
              · refine (ih h).imp_left fun hlt => ?_
                simp only [QuoteState.width, List.length_append, List.length_cons,
                  Gap.width_empty] at hlt ⊢
                omega
    | escape =>
      rw [doubleQuotedFrom] at h
      split at h
      · refine (ih h).imp_left fun hlt => ?_
        simp only [QuoteState.width, Gap.width, Option.toList_none, List.length_nil] at hlt ⊢
        omega
      · split at h
        · refine (ih h).imp_left fun hlt => ?_
          simp only [QuoteState.width, List.length_cons, Gap.width_empty] at hlt ⊢
          omega
        · split at h
          · refine (ih h).imp_left fun hlt => ?_
            simp only [QuoteState.width] at hlt ⊢
            omega
          · cases h
    | code left value =>
      rw [doubleQuotedFrom] at h
      split at h
      · cases h
      · dsimp only at h
        split at h
        · refine (ih h).imp_left fun hlt => ?_
          simp only [QuoteState.width] at hlt ⊢
          omega
        · split at h
          · refine (ih h).imp_left fun hlt => ?_
            simp only [QuoteState.width, List.length_cons, Gap.width_empty] at hlt ⊢
            omega
          · cases h

end Yaml
end ScoringTree
