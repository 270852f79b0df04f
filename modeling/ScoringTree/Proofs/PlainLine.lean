import Mathlib.Algebra.GroupWithZero.Nat
import Mathlib.Data.List.Basic
import ScoringTree.Yaml.Token.Lexer

/-!
# ScoringTree.Proofs.PlainLine

Lines of a mapping in YAML text: a key, a colon, and a scalar on the same line.

What the lexer does with a line depends on where it stands only through the column, so a state is
described by what is still to be read and by its tokens, and places are left open as far as they can
be.

* `isKept`           — characters that are read as they are.
* `isPlainRest`      — text that is read as it stands inside a plain scalar.
* `startsLine`       — text that begins a plain scalar in a block.
* `Lexer.inBlock`    — the states outside flow collections.
* `Lexer.run?_entry` — a key and its colon.
* `Lexer.run?_line`  — a key and the plain scalar behind it.
-/

namespace ScoringTree
namespace Yaml

/-! ## Characters -/

/-- A character that text may hold and that is kept as it is. -/
def isKept (c : Char) : Bool := isAllowed c && c != '\r' && c != '\u0085'

theorem unifyBreaks_append {line : List Char} (hline : line.all isKept = true)
    (rest : List Char) : unifyBreaks (line ++ rest) = line ++ unifyBreaks rest := by
  induction line with
  | nil => rfl
  | cons c cs ih =>
    simp only [List.all_cons, isKept, Bool.and_eq_true, bne_iff_ne] at hline
    obtain ⟨⟨⟨-, hreturn⟩, hnext⟩, hcs⟩ := hline
    rw [List.cons_append, unifyBreaks]
    · simp [hreturn, hnext, ih hcs]
    · intro _ hc _
      exact hreturn hc

theorem unifyBreaks_of_isKept {line : List Char} (hline : line.all isKept = true) :
    unifyBreaks line = line := by
  simpa [unifyBreaks] using unifyBreaks_append hline []

/-- The end of a line stays where it is, but for a carriage return in front of it. -/
theorem unifyBreaks_newline (line rest : List Char) :
    ∃ front, unifyBreaks (line ++ '\n' :: rest) = front ++ '\n' :: unifyBreaks rest ∧
      front.length ≤ line.length ∧ ∀ c ∈ front, c ≠ '\r' ∧ c ≠ '\u0085' := by
  fun_induction unifyBreaks line with
  | case1 =>
    refine ⟨[], ?_, Nat.le_refl _, nofun⟩
    rw [List.nil_append, unifyBreaks]
    · rfl
    · nofun
  | case2 cs ih =>
    obtain ⟨front, hfront, hlength, hother⟩ := ih
    refine ⟨'\n' :: front, ?_, by simp only [List.length_cons]; omega, ?_⟩
    · rw [List.cons_append, List.cons_append, unifyBreaks, hfront, List.cons_append]
    · simpa using hother
  | case3 c cs hpair ih =>
    by_cases hlast : c = '\r' ∧ cs = []
    · obtain ⟨rfl, rfl⟩ := hlast
      exact ⟨[], rfl, Nat.zero_le _, nofun⟩
    · obtain ⟨front, hfront, hlength, hother⟩ := ih
      refine ⟨(if c == '\r' || c == '\u0085' then '\n' else c) :: front, ?_, by simpa using hlength,
        ?_⟩
      · rw [List.cons_append, unifyBreaks, hfront, List.cons_append]
        rintro others rfl hcs
        cases cs with
        | nil => exact hlast ⟨rfl, rfl⟩
        | cons d ds =>
          cases hcs
          exact hpair _ rfl rfl
      · intro d hd
        rcases List.mem_cons.mp hd with rfl | hd
        · split
          · decide
          · rename_i hc
            simpa using hc
        · exact hother d hd

theorem readText_of_isKept {text : String} (h : text.toList.all isKept = true) :
    readText text = some text.toList := by
  have hallowed : text.toList.all isAllowed = true := by
    rw [List.all_eq_true] at h ⊢
    intro c hc
    have hkept := h c hc
    rw [isKept, Bool.and_eq_true, Bool.and_eq_true] at hkept
    exact hkept.1.1
  rw [readText, if_pos hallowed, unifyBreaks_of_isKept h]

/-! ## Plain scalars -/

/-- The text stands on one line and is read as it is inside a plain scalar: no colon before a gap,
no comment behind a blank, no blank at the end. `afterBlank` tells that a blank stands before. -/
def isPlainRest (afterBlank : Bool) : List Char → Bool
  | [] => !afterBlank
  | c :: cs =>
    !isBreak c &&
      if isBlank c then isPlainRest true cs
      else !(afterBlank && c == '#') && !(c == ':' && atGap cs) && isPlainRest false cs

/-- The text begins a plain scalar in a block. -/
def startsLine : List Char → Bool
  | [] => false
  | c :: cs => !(isGap c || isIndicator c) || ((c == '-' || c == '?' || c == ':') && !atGap cs)

theorem atGap_append {cs : List Char} (h : cs ≠ []) (rest : List Char) :
    atGap (cs ++ rest) = atGap cs := by
  cases cs with
  | nil => exact absurd rfl h
  | cons c cs => rfl

theorem Position.after_column (place : Position) {c : Char} (h : isBreak c = false) :
    (place.after c).column = place.column + 1 := by
  simp [Position.after, h]

theorem not_isBreak_of_isPlainRest {afterBlank : Bool} {line : List Char}
    (h : isPlainRest afterBlank line = true) : ∀ c ∈ line, isBreak c = false := by
  induction line generalizing afterBlank with
  | nil => simp
  | cons d ds ih =>
    rw [isPlainRest, Bool.and_eq_true, Bool.not_eq_true'] at h
    intro c hc
    rcases List.mem_cons.mp hc with rfl | hc
    · exact h.1
    · have hrest := h.2
      split at hrest
      · exact ih hrest c hc
      · rw [Bool.and_eq_true] at hrest
        exact ih hrest.2 c hc

theorem Position.foldl_after {line : List Char} (h : ∀ c ∈ line, isBreak c = false)
    (place : Position) :
    line.foldl Position.after place =
      ⟨place.line, place.column + line.length, place.offset + (line.map Char.utf8Size).sum⟩ := by
  induction line generalizing place with
  | nil => rfl
  | cons c cs ih =>
    have hc := h c (by simp)
    rw [List.foldl_cons, ih fun d hd => h d (List.mem_cons_of_mem _ hd)]
    simp only [Position.after, hc, Bool.false_eq_true, if_false, List.length_cons, List.map_cons,
      List.sum_cons, Position.mk.injEq, true_and]
    omega

/-- Text on one line is read as it stands, up to whatever stops the scalar. -/
theorem plainFrom_append {indent : Nat} {text blanks : List Char} {inGap : Bool} {place : Position}
    {line : List Char} (stop : List Char) (hplain : isPlainRest inGap line = true)
    (hblanks : inGap = false → blanks = []) (hcolumn : indent ≤ place.column + 1)
    (hgap : inGap = true → indent ≤ place.column ∧ 0 < place.column) :
    plainFrom false indent text (.inline blanks) inGap place (line ++ stop) =
      plainFrom false indent (line.reverse ++ (blanks ++ text)) .empty false
        (line.foldl Position.after place) stop := by
  induction line generalizing text blanks inGap place with
  | nil =>
    have hsolid : inGap = false := by simpa [isPlainRest] using hplain
    rw [hsolid, hblanks hsolid]
    rfl
  | cons c cs ih =>
    rw [isPlainRest, Bool.and_eq_true, Bool.not_eq_true'] at hplain
    obtain ⟨hbreak, hplain⟩ := hplain
    have hafter := Position.after_column place hbreak
    rw [List.cons_append, plainFrom]
    split at hplain
    · rename_i hblank
      rw [if_pos hblank]
      simp only [Gap.isFolded, Bool.false_and, Bool.false_eq_true, if_false, Gap.addBlank]
      rw [ih hplain (by simp) (by omega) (fun _ => by omega)]
      simp
    · rename_i hblank
      simp only [Bool.and_eq_true, Bool.not_eq_true'] at hplain
      obtain ⟨⟨hcomment, hcolon⟩, hrest⟩ := hplain
      have hends : (inGap && endsAfterGap false indent place.column (c :: (cs ++ stop))) = false := by
        cases inGap with
        | false => rfl
        | true =>
          obtain ⟨hindent, hpos⟩ := hgap rfl
          have hhash : c ≠ '#' := by simpa using hcomment
          have hzero : (place.column == 0) = false := by
            rw [beq_eq_false_iff_ne]
            omega
          simp [endsAfterGap, hzero, hhash, Nat.not_lt.mpr hindent]
      have hcolon' : endsPlain false (c :: (cs ++ stop)) = false := by
        rw [endsPlain, Bool.false_and, Bool.or_false]
        by_cases hc : c = ':'
        · subst hc
          have hmore : cs ≠ [] := by
            rintro rfl
            simp [atGap] at hcolon
          rw [atGap_append hmore]
          simpa using hcolon
        · simp [hc]
      have hmisplaced : isMisplacedColon false (c :: (cs ++ stop)) = false := by
        unfold isMisplacedColon
        split <;> rfl
      rw [if_neg hblank, if_neg (by simp [hbreak]), if_neg (by simp [hends]),
        if_neg (by simp [hmisplaced]), if_neg (by simp [hcolon'])]
      have hnext := @ih (c :: (Gap.contents (.inline blanks) ++ text)) [] false (place.after c)
        hrest (fun _ => rfl) (by omega) (by simp)
      rw [Gap.empty, hnext]
      simp [Gap.contents, Gap.empty]

theorem plain?_append {indent : Nat} {place : Position} {line : List Char} (stop : List Char)
    (hplain : isPlainRest false line = true) (hcolumn : indent ≤ place.column + 1) :
    plain? false indent ⟨place, line ++ stop⟩ =
      plainFrom false indent line.reverse .empty false (line.foldl Position.after place) stop := by
  have hread := @plainFrom_append indent [] [] false place line stop hplain (fun _ => rfl) hcolumn
    nofun
  rw [List.append_nil, List.append_nil] at hread
  exact hread

/-- At the end of the line a plain scalar goes over empty lines, and stops at the next word of a
line that is not indented. -/
theorem plainFrom_breaks {indent : Nat} (hindent : 0 < indent) (text rest : List Char)
    (hrest : ∀ c ∈ rest.head?, isGap c = false) (count : Nat) (gap : Gap) (inGap : Bool)
    (place : Position) :
    ∃ gap' place', gap'.isFolded = true ∧ place'.column = 0 ∧
      plainFrom false indent text gap inGap place (List.replicate (count + 1) '\n' ++ rest) =
        some ⟨text.reverse, gap', ⟨place', rest⟩⟩ := by
  have hnewline : ∀ (gap : Gap) (inGap : Bool) (place : Position) (cs : List Char),
      plainFrom false indent text gap inGap place ('\n' :: cs) =
        plainFrom false indent text (gap.addBreak '\n') true (place.after '\n') cs := by
    intro gap inGap place cs
    rw [plainFrom, if_neg (by decide), if_pos (by decide)]
  have hfolded : ∀ gap : Gap, (gap.addBreak '\n').isFolded = true := by
    intro gap
    cases gap <;> rfl
  induction count generalizing gap inGap place with
  | zero =>
    refine ⟨gap.addBreak '\n', place.after '\n', hfolded gap, rfl, ?_⟩
    rw [List.replicate_one, List.singleton_append, hnewline]
    cases rest with
    | nil => rfl
    | cons c cs =>
      have hc := hrest c rfl
      rw [isGap, Bool.or_eq_false_iff] at hc
      have hcolumn : (place.after '\n').column = 0 := rfl
      rw [plainFrom, if_neg (by simp [hc.1]), if_neg (by simp [hc.2]), if_pos]
      simp [endsAfterGap, hcolumn, hindent]
  | succ count ih =>
    rw [List.replicate_succ, List.cons_append, hnewline]
    exact ih _ _ _

/-! ## States in a block -/

namespace Lexer

/-- A state outside flow collections. -/
def inBlock (place : Position) (rest : List Char) (tokens : List Token) (indents : List Nat)
    (key : Option PendingKey) (keyAllowed : Bool) : Lexer :=
  { cursor := ⟨place, rest⟩, tokens, flow := 0, indents, key, outerKeys := [], keyAllowed }

/-- Lexers that are alike but for a gap ahead go on in the same way. -/
theorem step?_congr {lexer other : Lexer} (h : lexer.skipGaps = other.skipGaps) :
    lexer.step? = other.step? := by
  rw [step?, step?, h]

theorem run?_congr {lexer other : Lexer} (h : lexer.skipGaps = other.skipGaps) (fuel : Nat) :
    run? fuel lexer = run? fuel other := by
  cases fuel with
  | zero => rfl
  | succ fuel => rw [run?, run?, step?_congr h]

theorem skipGaps_of_head? {place : Position} {rest : List Char} {tokens : List Token}
    {indents : List Nat} {key : Option PendingKey} {keyAllowed : Bool}
    (hrest : ∀ c ∈ rest.head?, isGap c = false ∧ c ≠ '#' ∧ (c = '\ufeff' → place.column ≠ 0)) :
    (inBlock place rest tokens indents key keyAllowed).skipGaps =
      inBlock place rest tokens indents key keyAllowed := by
  cases rest with
  | nil => rfl
  | cons c cs =>
    obtain ⟨hgap, hhash, hmark⟩ := hrest c rfl
    simp only [isGap, isBlank, Bool.or_eq_false_iff, beq_eq_false_iff_ne] at hgap
    simp only [skipGaps, inBlock, skipGapsFrom, inFlow]
    rw [if_neg (by simp [hgap.2]), if_neg (by simp [hhash]), if_neg]
    simpa [hgap.1.1, hgap.1.2] using hmark

theorem skipGaps_blank (place : Position) (rest : List Char) (tokens : List Token)
    (indents : List Nat) (key : Option PendingKey) (keyAllowed : Bool) :
    (inBlock place (' ' :: rest) tokens indents key keyAllowed).skipGaps =
      (inBlock (place.after ' ') rest tokens indents key keyAllowed).skipGaps := by
  simp only [skipGaps, inBlock, inFlow]
  rw [skipGapsFrom, if_neg (by decide), if_neg (by decide), if_pos (by simp)]

theorem skipGaps_newline (place : Position) (rest : List Char) (tokens : List Token)
    (indents : List Nat) (key : Option PendingKey) (keyAllowed : Bool) :
    (inBlock place ('\n' :: rest) tokens indents key keyAllowed).skipGaps =
      (inBlock (place.after '\n') rest tokens indents key true).skipGaps := by
  simp only [skipGaps, inBlock, inFlow]
  rw [skipGapsFrom, if_pos (by decide)]
  simp

theorem skipGapsFrom_comment {line : List Char} (hline : ∀ c ∈ line, isBreak c = false)
    (inFlow keyAllowed : Bool) (place : Position) (rest : List Char) :
    skipGapsFrom inFlow keyAllowed true place (line ++ rest) =
      skipGapsFrom inFlow keyAllowed true (line.foldl Position.after place) rest := by
  induction line generalizing place with
  | nil => rfl
  | cons c cs ih =>
    have hc := hline c (by simp)
    rw [List.cons_append, skipGapsFrom, if_neg (by simp [hc]), if_pos (by simp)]
    exact ih (fun d hd => hline d (List.mem_cons_of_mem _ hd)) _

/-- A comment is passed over with its line. -/
theorem skipGaps_comment {line : List Char} (hline : ∀ c ∈ line, isBreak c = false)
    (place : Position) (rest : List Char) (tokens : List Token) (indents : List Nat)
    (key : Option PendingKey) (keyAllowed : Bool) :
    ∃ place', place'.column = 0 ∧
      (inBlock place ('#' :: (line ++ '\n' :: rest)) tokens indents key keyAllowed).skipGaps =
        (inBlock place' rest tokens indents key true).skipGaps := by
  refine ⟨((line.foldl Position.after (place.after '#')).after '\n'), rfl, ?_⟩
  simp only [skipGaps, inBlock, inFlow]
  rw [skipGapsFrom, if_neg (by decide), if_pos (by decide), skipGapsFrom_comment hline,
    skipGapsFrom, if_pos (by decide)]
  simp

/-! ## Steps in a block -/

/-- Nothing is closed by a word in the outermost block. -/
theorem closeBlocks_outermost {lexer : Lexer} (hindents : ∀ i ∈ lexer.indents, i = 0)
    (column : Nat) : lexer.closeBlocks (column < ·) = lexer := by
  have hnone : lexer.indents.takeWhile (fun i => decide (column < i)) = [] := by
    cases hcases : lexer.indents with
    | nil => rfl
    | cons i is =>
      have hi := hindents i (by rw [hcases]; simp)
      simp [hi]
  simp [closeBlocks, hnone]

theorem token?_plain {place : Position} {rest : List Char} {tokens : List Token}
    {indents : List Nat} {key : Option PendingKey} {keyAllowed : Bool}
    (hstart : startsLine rest = true)
    (hcolumn : place.column = 0 → ∀ c ∈ rest.head?, c ≠ '-' ∧ c ≠ '.') :
    (inBlock place rest tokens indents key keyAllowed).token? =
      (inBlock place rest tokens indents key keyAllowed).plainScalar? := by
  cases rest with
  | nil => cases hstart
  | cons c cs =>
    have hmark : (place.column == 0 && isDocumentMark (c :: cs)) = false := by
      by_cases hzero : place.column = 0
      · obtain ⟨hdash, hdot⟩ := hcolumn hzero c rfl
        have hno : isDocumentMark (c :: cs) = false := by
          unfold isDocumentMark
          split <;> simp_all
        rw [hno, Bool.and_false]
      · simp [hzero]
    simp only [startsLine, Bool.or_eq_true, Bool.and_eq_true, Bool.not_eq_true', beq_iff_eq,
      Bool.or_eq_false_iff, isIndicator, isFlowMark, beq_eq_false_iff_ne] at hstart
    simp only [token?, inBlock, hmark, inFlow]
    rcases hstart with ⟨hgap, hnone⟩ | ⟨hdash, hgap⟩
    · have hplain : startsPlain false (c :: cs) = true := by
        simp [startsPlain, isIndicator, isFlowMark, hgap, hnone]
      simp [hnone, hplain]
    · have hnext : ∀ d ∈ cs.head?, isBlank d = false := by
        cases cs with
        | nil => simp
        | cons d ds =>
          intro e he
          cases he
          rw [atGap, isGap, Bool.or_eq_false_iff] at hgap
          exact hgap.1
      have hplain : startsPlain false (c :: cs) = true := by
        rcases hdash with (rfl | rfl) | rfl
        · cases cs with
          | nil => simp [startsPlain]
          | cons d ds => simp [startsPlain, hnext d rfl]
        · simp [startsPlain, hgap]
        · simp [startsPlain, hgap]
      rcases hdash with (rfl | rfl) | rfl <;> simp [hgap, hplain]

theorem startsLine_append {line : List Char} (h : startsLine line = true) (rest : List Char) :
    startsLine (line ++ rest) = true := by
  cases line with
  | nil => cases h
  | cons c cs =>
    simp only [List.cons_append, startsLine, Bool.or_eq_true, Bool.and_eq_true] at h ⊢
    refine h.imp_right fun ⟨hmark, hgap⟩ => ⟨hmark, ?_⟩
    have hmore : cs ≠ [] := by
      rintro rfl
      cases hgap
    rw [atGap_append hmore]
    exact hgap

theorem head?_of_startsLine {rest : List Char} (h : startsLine rest = true) :
    ∀ c ∈ rest.head?, isGap c = false ∧ c ≠ '#' := by
  cases rest with
  | nil => simp
  | cons c cs =>
    intro d hd
    cases hd
    simp only [startsLine, Bool.or_eq_true, Bool.and_eq_true, Bool.not_eq_true',
      Bool.or_eq_false_iff, isIndicator, beq_eq_false_iff_ne, beq_iff_eq] at h
    rcases h with ⟨hgap, hnone⟩ | ⟨(rfl | rfl) | rfl, -⟩
    · exact ⟨hgap, by simp [hnone]⟩
    · decide
    · decide
    · decide

/-- A step without pending keys, behind the gap ahead. -/
theorem step?_of_skipGaps {lexer : Lexer} {place : Position} {rest : List Char}
    {tokens : List Token} {indents : List Nat} {keyAllowed : Bool}
    (h : lexer.skipGaps = inBlock place rest tokens indents none keyAllowed)
    (hindents : ∀ i ∈ indents, i = 0) :
    lexer.step? = (inBlock place rest tokens indents none keyAllowed).token? := by
  have hfresh : (inBlock place rest tokens indents none keyAllowed).dropStale? =
      some (inBlock place rest tokens indents none keyAllowed) := rfl
  rw [step?, h, hfresh]
  exact congrArg token? (closeBlocks_outermost hindents _)

/-- A plain scalar behind a colon, up to the next word of a line that is not indented. -/
theorem step?_plain {line : String} {rest : List Char} (hstart : startsLine line.toList = true)
    (hplain : isPlainRest false line.toList = true) (hrest : ∀ c ∈ rest.head?, isGap c = false)
    (count : Nat) (place : Position) (tokens : List Token) :
    ∃ place', place'.column = 0 ∧
      (inBlock place (' ' :: (line.toList ++ (List.replicate (count + 1) '\n' ++ rest))) tokens [0]
        none false).step? =
      some (inBlock place' rest (.scalar .plain line :: tokens) [0] none true) := by
  have hcolumn : (place.after ' ').column = place.column + 1 :=
    Position.after_column place (by decide)
  have hstart' := startsLine_append hstart (List.replicate (count + 1) '\n' ++ rest)
  have hskip : (inBlock place (' ' :: (line.toList ++ (List.replicate (count + 1) '\n' ++ rest)))
      tokens [0] none false).skipGaps = inBlock (place.after ' ')
        (line.toList ++ (List.replicate (count + 1) '\n' ++ rest)) tokens [0] none false := by
    rw [skipGaps_blank, skipGaps_of_head?]
    intro c hc
    obtain ⟨hgap, hhash⟩ := head?_of_startsLine hstart' c hc
    exact ⟨hgap, hhash, fun _ => by omega⟩
  have hread := @plain?_append 1 (place.after ' ') line.toList
    (List.replicate (count + 1) '\n' ++ rest) hplain (by omega)
  obtain ⟨gap, place', hgap, hplace', hends⟩ := plainFrom_breaks Nat.one_pos
    line.toList.reverse rest hrest count .empty false
    (line.toList.foldl Position.after (place.after ' '))
  rw [hends, List.reverse_reverse] at hread
  refine ⟨place', hplace', ?_⟩
  rw [step?_of_skipGaps hskip (by simp), token?_plain hstart' (by omega)]
  simp only [plainScalar?, saveKey?, inBlock, inFlow, bne_self_eq_false, Bool.false_eq_true,
    if_false, Option.bind_eq_bind, Option.bind_some, Nat.zero_add, hread, hgap, push,
    String.ofList_toList]

theorem run?_of_step? {lexer next : Lexer} (h : lexer.step? = some next)
    (hrest : next.cursor.rest ≠ []) (fuel : Nat) : run? (fuel + 1) lexer = run? fuel next := by
  simp only [run?, h]
  rw [if_neg]
  simpa using hrest

/-- A key on one line, not too long. -/
structure IsKey (word : String) : Prop where
  starts : startsLine word.toList = true
  plain : isPlainRest false word.toList = true
  head : ∀ c ∈ word.toList.head?, c ≠ '-' ∧ c ≠ '.' ∧ c ≠ '\ufeff'
  short : (word.toList.map Char.utf8Size).sum ≤ 1024

theorem IsKey.ne_nil {word : String} (h : IsKey word) : word.toList ≠ [] := by
  intro hnil
  have hstarts := h.starts
  rw [hnil] at hstarts
  cases hstarts

/-- The token that opens the outermost block, if it is not open yet. -/
def opening (indents : List Nat) : List Token :=
  if indents.isEmpty then [.blockMappingStart] else []

section Entry

variable {word : String} {place : Position} {indents : List Nat}

theorem IsKey.head_append (hword : IsKey word) (rest : List Char) :
    ∀ c ∈ (word.toList ++ rest).head?,
      (isGap c = false ∧ c ≠ '#') ∧ c ≠ '-' ∧ c ≠ '.' ∧ c ≠ '\ufeff' := by
  rw [List.head?_append_of_ne_nil _ hword.ne_nil]
  intro c hc
  exact ⟨head?_of_startsLine hword.starts c hc, hword.head c hc⟩

/-- A plain scalar ends before the colon of a key. -/
theorem plain?_key (hword : IsKey word) {indent : Nat} (hindent : indent ≤ place.column + 1)
    (rest : List Char) :
    plain? false indent ⟨place, word.toList ++ ':' :: ' ' :: rest⟩ =
      some ⟨word.toList, .empty,
        ⟨word.toList.foldl Position.after place, ':' :: ' ' :: rest⟩⟩ := by
  rw [plain?_append _ hword.plain hindent, plainFrom, if_neg (by decide), if_neg (by decide),
    if_neg (by simp), if_neg (by simp [isMisplacedColon]),
    if_pos (by simp [endsPlain, atGap, isGap, isBlank]), List.reverse_reverse]

/-- A word at the beginning of a line may be a key. -/
theorem step?_key (hword : IsKey word) (hplace : place.column = 0)
    (hindents : indents = [] ∨ indents = [0]) (rest : List Char) (tokens : List Token)
    {lexer : Lexer} (hlexer : lexer.skipGaps =
      (inBlock place (word.toList ++ ':' :: ' ' :: rest) tokens indents none true).skipGaps) :
    lexer.step? = some (inBlock (word.toList.foldl Position.after place) (':' :: ' ' :: rest)
      (.scalar .plain word :: tokens) indents
      (some ⟨tokens.length, place, indents.head? == some place.column⟩) false) := by
  have hstart := startsLine_append hword.starts (':' :: ' ' :: rest)
  have hhead := hword.head_append (':' :: ' ' :: rest)
  have hskip : lexer.skipGaps =
      inBlock place (word.toList ++ ':' :: ' ' :: rest) tokens indents none true := by
    rw [hlexer, skipGaps_of_head?]
    intro c hc
    obtain ⟨⟨hgap, hhash⟩, -, -, hmark⟩ := hhead c hc
    exact ⟨hgap, hhash, fun h => absurd h hmark⟩
  have hzero : ∀ i ∈ indents, i = 0 := by
    rcases hindents with rfl | rfl <;> simp
  have hzeroth := plain?_key hword (show 0 ≤ place.column + 1 by omega) rest
  have hfirst := plain?_key hword (show 1 ≤ place.column + 1 by omega) rest
  rw [step?_of_skipGaps hskip hzero,
    token?_plain hstart fun _ c hc => ⟨(hhead c hc).2.1, (hhead c hc).2.2.1⟩]
  rcases hindents with rfl | rfl
  · simp [plainScalar?, saveKey?, dropKey?, inBlock, inFlow, hzeroth, push, Gap.isFolded, Gap.empty]
  · simp [plainScalar?, saveKey?, dropKey?, inBlock, inFlow, hfirst, push, Gap.isFolded, Gap.empty]

/-- The colon behind a word makes it a key. -/
theorem step?_colon (hword : IsKey word) (hplace : place.column = 0)
    (hindents : indents = [] ∨ indents = [0]) (rest : List Char) (tokens : List Token)
    (required : Bool) :
    (inBlock (word.toList.foldl Position.after place) (':' :: ' ' :: rest)
      (.scalar .plain word :: tokens) indents
      (some ⟨tokens.length, place, required⟩) false).step? =
    some (inBlock ((word.toList.foldl Position.after place).after ':') (' ' :: rest)
      (.value :: .scalar .plain word :: .key :: (opening indents ++ tokens)) [0] none
      false) := by
  have hposition := Position.foldl_after (not_isBreak_of_isPlainRest hword.plain) place
  have hlength : word.toList.length ≠ 0 := by
    rw [Ne, List.length_eq_zero_iff]
    exact hword.ne_nil
  have hshort := hword.short
  have hcolumn : ((word.toList.foldl Position.after place).column == 0) = false := by
    rw [hposition, beq_eq_false_iff_ne]
    simp only
    omega
  have hzero : ∀ i ∈ indents, i = 0 := by
    rcases hindents with rfl | rfl <;> simp
  have hfresh : ∀ tokens' key', key' = (⟨tokens.length, place, required⟩ : PendingKey) →
      (inBlock (word.toList.foldl Position.after place) (':' :: ' ' :: rest) tokens' indents (some key')
        false).dropStale? =
      some (inBlock (word.toList.foldl Position.after place) (':' :: ' ' :: rest) tokens' indents
        (some key') false) := by
    rintro tokens' key' rfl
    have hline : ¬ place.line < (word.toList.foldl Position.after place).line := by
      rw [hposition]
      simp
    have hoffset : ¬ place.offset + 1024 < (word.toList.foldl Position.after place).offset := by
      rw [hposition]
      simp only
      omega
    simp [dropStale?, freshKey?, isStale, inBlock, hline, hoffset]
  rw [step?, skipGaps_of_head? (by simp [isGap, isBlank, isBreak]), hfresh _ _ rfl]
  simp only [Option.bind_eq_bind, Option.bind_some]
  rw [closeBlocks_outermost hzero]
  have hcolon : atGap (' ' :: rest) = true := rfl
  simp only [token?, inBlock, hcolumn, hcolon]
  rcases hindents with rfl | rfl
  · have hlater : tokens.length + 1 + 1 - tokens.length = 2 := by omega
    simp [value?, insertAt, openBlock, inFlow, push, advance, Cursor.forward, opening, hplace,
      hlater]
  · simp [value?, insertAt, openBlock, inFlow, push, advance, Cursor.forward, opening, hplace]

/-- A key at the beginning of a line, with its colon. -/
theorem run?_entry (hword : IsKey word) (hplace : place.column = 0)
    (hindents : indents = [] ∨ indents = [0]) (rest : List Char) (tokens : List Token)
    {lexer : Lexer} (hlexer : lexer.skipGaps =
      (inBlock place (word.toList ++ ':' :: ' ' :: rest) tokens indents none true).skipGaps) :
    ∃ place', ∀ fuel, run? (fuel + 2) lexer =
      run? fuel (inBlock place' (' ' :: rest)
        (.value :: .scalar .plain word :: .key :: (opening indents ++ tokens)) [0]
        none false) := by
  refine ⟨(word.toList.foldl Position.after place).after ':', fun fuel => ?_⟩
  rw [run?_of_step? (step?_key hword hplace hindents rest tokens hlexer) (by simp [inBlock]),
    run?_of_step? (step?_colon hword hplace hindents rest tokens _) (by simp [inBlock])]

/-- A line of a mapping, up to the next word of a line that is not indented. -/
theorem run?_line {line : String} {rest : List Char} (hword : IsKey word) (hplace : place.column = 0)
    (hindents : indents = [] ∨ indents = [0]) (hstart : startsLine line.toList = true)
    (hplain : isPlainRest false line.toList = true) (hrest : ∀ c ∈ rest.head?, isGap c = false)
    (hmore : rest ≠ []) (count : Nat) (tokens : List Token) {lexer : Lexer}
    (hlexer : lexer.skipGaps = (inBlock place
      (word.toList ++ ':' :: ' ' :: (line.toList ++ (List.replicate (count + 1) '\n' ++ rest))) tokens indents none
      true).skipGaps) :
    ∃ place', place'.column = 0 ∧ ∀ fuel, run? (fuel + 3) lexer =
      run? fuel (inBlock place' rest (.scalar .plain line :: .value ::
        .scalar .plain word :: .key :: (opening indents ++ tokens)) [0] none
        true) := by
  obtain ⟨between, hentry⟩ := run?_entry hword hplace hindents _ tokens hlexer
  obtain ⟨place', hplace', hstep⟩ := step?_plain hstart hplain hrest count between
    (.value :: .scalar .plain word :: .key :: (opening indents ++ tokens))
  refine ⟨place', hplace', fun fuel => ?_⟩
  rw [hentry (fuel + 1), run?_of_step? hstep hmore]

/-- The last line of a mapping. -/
theorem run?_last {line : String} (hword : IsKey word) (hplace : place.column = 0)
    (hindents : indents = [] ∨ indents = [0]) (hstart : startsLine line.toList = true)
    (hplain : isPlainRest false line.toList = true) (count : Nat) (tokens : List Token) {lexer : Lexer}
    (hlexer : lexer.skipGaps = (inBlock place
      (word.toList ++ ':' :: ' ' :: (line.toList ++ List.replicate (count + 1) '\n')) tokens indents none
      true).skipGaps) :
    ∃ final, (∀ fuel, run? (fuel + 3) lexer = some final) ∧ final.tokens =
      .blockEnd :: .scalar .plain line :: .value ::
        .scalar .plain word :: .key :: (opening indents ++ tokens) := by
  obtain ⟨between, hentry⟩ := run?_entry hword hplace hindents _ tokens hlexer
  obtain ⟨place', -, hstep⟩ := @step?_plain line [] hstart hplain (by simp) count between
    (.value :: .scalar .plain word :: .key :: (opening indents ++ tokens))
  rw [List.append_nil] at hstep
  refine ⟨inBlock place' [] (.blockEnd :: .scalar .plain line :: .value ::
    .scalar .plain word :: .key :: (opening indents ++ tokens)) [] none true,
    fun fuel => ?_, rfl⟩
  rw [hentry (fuel + 1), run?, hstep]
  rfl

end Entry

/-! ## Scalars in double quotes -/

/-- Neither blank nor break, and nothing that quotes give a meaning to. -/
def isPlainQuoted (c : Char) : Bool := !isGap c && c != '"' && c != '\\'

/-- Nothing on the line is mistaken for the mark of a document. -/
theorem doubleQuotedFrom_append {line : List Char} (hline : ∀ c ∈ line, isPlainQuoted c = true)
    (hnonempty : line ≠ []) (text rest : List Char) (gap : Gap) {place : Position}
    (hplace : 0 < place.column ∨ ∀ c ∈ line.head?, c ≠ '-' ∧ c ≠ '.') :
    doubleQuotedFrom text (.words gap) place (line ++ rest) =
      doubleQuotedFrom (line.reverse ++ (gap.contents ++ text)) (.words .empty)
        (line.foldl Position.after place) rest := by
  induction line generalizing text gap place with
  | nil => exact absurd rfl hnonempty
  | cons c cs ih =>
    have hc := hline c (by simp)
    simp only [isPlainQuoted, isGap, Bool.and_eq_true, Bool.not_eq_true', Bool.or_eq_false_iff,
      bne_iff_ne] at hc
    have hmark : isStrayMark place.column (c :: (cs ++ rest)) = false := by
      rcases hplace with hcolumn | hhead
      · have hpos : (place.column == 0) = false := by
          rw [beq_eq_false_iff_ne]
          omega
        simp [isStrayMark, hpos]
      · obtain ⟨hdash, hdot⟩ := hhead c rfl
        have hno : isDocumentMark (c :: (cs ++ rest)) = false := by
          unfold isDocumentMark
          split <;> simp_all
        simp [isStrayMark, hno]
    have hafter := Position.after_column place hc.1.1.2
    rw [List.cons_append, doubleQuotedFrom]
    simp only [hc.1.1.1, hc.1.1.2, hmark, Bool.false_eq_true, if_false, beq_iff_eq, hc.1.2, hc.2]
    cases cs with
    | nil => simp
    | cons d ds =>
      rw [ih (fun e he => hline e (List.mem_cons_of_mem _ he)) (List.cons_ne_nil _ _) _ _
        (.inl (by omega))]
      simp [Gap.contents, Gap.empty]

/-- The closing quote. -/
theorem doubleQuotedFrom_quote (text rest : List Char) (gap : Gap) (place : Position) :
    doubleQuotedFrom text (.words gap) place ('"' :: rest) =
      some ((gap.contents ++ text).reverse, ⟨place.after '"', rest⟩) := by
  rw [doubleQuotedFrom]
  simp [isBlank, isBreak, isStrayMark, isDocumentMark]

/-- A scalar in double quotes behind a colon. -/
theorem step?_quoted {line : String} (hline : ∀ c ∈ line.toList, isPlainQuoted c = true)
    (hnonempty : line.toList ≠ []) (place : Position) (rest : List Char) (tokens : List Token) :
    ∃ place', (inBlock place (' ' :: '"' :: (line.toList ++ '"' :: rest)) tokens [0] none false).step? =
      some (inBlock place' rest (.scalar .quoted line :: tokens) [0] none false) := by
  have hcolumn : (place.after ' ').column = place.column + 1 :=
    Position.after_column place (by decide)
  have hskip : (inBlock place (' ' :: '"' :: (line.toList ++ '"' :: rest)) tokens [0] none false).skipGaps =
      inBlock (place.after ' ') ('"' :: (line.toList ++ '"' :: rest)) tokens [0] none false := by
    rw [skipGaps_blank, skipGaps_of_head? (by simp [isGap, isBlank, isBreak])]
  have hquote : ((place.after ' ').after '"').column = (place.after ' ').column + 1 :=
    Position.after_column _ (by decide)
  have hread := doubleQuotedFrom_append hline hnonempty [] ('"' :: rest) .empty
    (.inl (show 0 < ((place.after ' ').after '"').column by omega))
  rw [doubleQuotedFrom_quote] at hread
  refine ⟨(line.toList.foldl Position.after ((place.after ' ').after '"')).after '"', ?_⟩
  have hzero : ((place.after ' ').column == 0) = false := by
    rw [beq_eq_false_iff_ne]
    omega
  have hdouble : doubleQuoted? ⟨(place.after ' ').after '"', line.toList ++ '"' :: rest⟩ =
      some (line.toList,
        ⟨(line.toList.foldl Position.after ((place.after ' ').after '"')).after '"', rest⟩) := by
    simpa [doubleQuoted?, Gap.contents, Gap.empty] using hread
  rw [step?_of_skipGaps hskip (by simp)]
  simp only [token?, inBlock, hzero]
  simp [quotedScalar?, saveKey?, Cursor.forward, hdouble, push, inFlow]

end Lexer

end Yaml
end ScoringTree
