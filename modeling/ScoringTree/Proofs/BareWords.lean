import ScoringTree.Proofs.ConditionReading
import ScoringTree.Source.Code
import ScoringTree.Source.Name

/-!
# ScoringTree.Proofs.BareWords

The words of generated source that stand outside of string literals.

A word is a run of letters, digits and the two signs that names may have. A float without a numeral
is written as a word, which no other word of the source is, so that one can tell from the words of a
line whether it holds such a float.

* `Scan.words`      — the bare words of a text.
* `nonNumeral`      — the text has one of the words for floats without a numeral.
* `Scan.Ends`, `Scan.Parts`
                    — what a piece of text does to a scan; pieces are put together with `append`.
* `Term.ends`       — an expression has such a word exactly if one of its numbers is not finite.
-/

namespace ScoringTree

namespace Source

/-! ## Scanning -/

/-- A character of words. -/
def isBareChar (c : Char) : Bool := isWordChar c || c == '_' || c == '$'

/-- Where a scan stands: behind some characters of a word, or in a string literal. -/
inductive Scan where
  | bare (word : List Char)
  | literal
  /-- Behind a backslash, which takes the next character along. -/
  | escape
  deriving DecidableEq

namespace Scan

def start : Scan := .bare []

def next : Scan → Char → Scan
  | .bare word, c =>
    if isBareChar c then .bare (word ++ [c]) else if c = '"' then .literal else start
  | .literal, c => if c = '"' then start else if c = '\\' then .escape else .literal
  | .escape, _ => .literal

def run (scan : Scan) (cs : List Char) : Scan := cs.foldl next scan

/-- The word that a character puts an end to. It is empty where no word went before. -/
def ended : Scan → Char → List (List Char)
  | .bare word, c => if isBareChar c then [] else [word]
  | _, _ => []

def passed (scan : Scan) : List Char → List (List Char)
  | [] => []
  | c :: cs => scan.ended c ++ passed (scan.next c) cs

/-- The word that a scan is left with. -/
def last : Scan → List (List Char)
  | .bare word => [word]
  | _ => []

/-- The bare words of a text, with an empty one where two characters that part words meet. -/
def words (cs : List Char) : List (List Char) := passed start cs ++ (start.run cs).last

end Scan

/-- The words that stand for what is not a number and for infinities. -/
def isNonNumeral (word : List Char) : Bool :=
  word == ['N', 'a', 'N'] || word == ['i', 'n', 'f']

/-- One of the words outside of string literals stands for a float without a numeral. -/
def nonNumeral (text : String) : Bool := (Scan.words text.toList).any isNonNumeral

namespace Scan

theorem run_append (scan : Scan) (cs ds : List Char) :
    scan.run (cs ++ ds) = (scan.run cs).run ds :=
  List.foldl_append

theorem passed_append (scan : Scan) (cs ds : List Char) :
    scan.passed (cs ++ ds) = scan.passed cs ++ (scan.run cs).passed ds := by
  induction cs generalizing scan with
  | nil => rfl
  | cons c cs ih =>
    rw [List.cons_append, passed, ih, passed, List.append_assoc]
    rfl

/-- From its beginning, the text leads out of all literals into this word, which is not ended; and
this is whether one of its words is for a float without a numeral. -/
structure Leads (cs word : List Char) (holds : Bool) : Prop where
  run_eq : start.run cs = .bare word
  any_eq : (words cs).any isNonNumeral = holds

instance (cs word : List Char) (holds : Bool) : Decidable (Leads cs word holds) :=
  decidable_of_iff (start.run cs = .bare word ∧ (words cs).any isNonNumeral = holds)
    ⟨fun h => ⟨h.1, h.2⟩, fun h => ⟨h.run_eq, h.any_eq⟩⟩

/-- The text ends outside of literals. -/
def Ends (cs : List Char) (holds : Bool) : Prop := ∃ word, Leads cs word holds

/-- The text ends outside of literals and where a new word may begin. -/
def Parts (cs : List Char) (holds : Bool) : Prop := Leads cs [] holds

instance (cs : List Char) (holds : Bool) : Decidable (Parts cs holds) :=
  inferInstanceAs (Decidable (Leads cs [] holds))

instance (cs : List Char) (holds : Bool) : Decidable (Ends cs holds) :=
  decidable_of_iff (Leads cs ((start.run cs).last.flatten) holds) <| by
    constructor
    · exact fun h => ⟨_, h⟩
    · rintro ⟨word, h⟩
      have hword : (start.run cs).last.flatten = word := by
        rw [h.run_eq, last, List.flatten_cons, List.flatten_nil, List.append_nil]
      rw [hword]
      exact h

/-- The text begins with a character that belongs to no word. -/
def Breaks (cs : List Char) : Bool := cs.head?.any fun c => !isBareChar c

section Pieces

variable {cs ds word : List Char} {b c : Bool}

theorem Parts.ends (h : Parts cs b) : Ends cs b := ⟨[], h⟩

theorem any_words_of_run (h : start.run cs = .bare word) :
    (words cs).any isNonNumeral = ((start.passed cs).any isNonNumeral || isNonNumeral word) := by
  rw [words, h, List.any_append, last, List.any_cons, List.any_nil, Bool.or_false]

theorem Parts.append_leads (hcs : Parts cs b) (hds : Leads ds word c) :
    Leads (cs ++ ds) word (b || c) := by
  have hrun : start.run (cs ++ ds) = .bare word := by
    rw [run_append, hcs.run_eq]
    exact hds.run_eq
  refine ⟨hrun, ?_⟩
  have hfirst := hcs.any_eq
  rw [any_words_of_run hcs.run_eq] at hfirst
  have hsecond := hds.any_eq
  rw [any_words_of_run hds.run_eq] at hsecond
  rw [any_words_of_run hrun, passed_append, hcs.run_eq, List.any_append, ← hfirst, ← hsecond]
  simp [isNonNumeral, start, Bool.or_assoc]

theorem Parts.append (hcs : Parts cs b) (hds : Parts ds c) : Parts (cs ++ ds) (b || c) :=
  hcs.append_leads hds

theorem Parts.append_ends (hcs : Parts cs b) (hds : Ends ds c) : Ends (cs ++ ds) (b || c) := by
  obtain ⟨word, hds⟩ := hds
  exact ⟨word, hcs.append_leads hds⟩

/-- A word that is not ended is ended by what stands behind it. -/
theorem Ends.append_leads (hcs : Ends cs b) (hbreak : Breaks ds = true)
    (hds : Leads ds word c) : Leads (cs ++ ds) word (b || c) := by
  obtain ⟨open', hcs⟩ := hcs
  obtain ⟨d, rest, rfl, hd⟩ : ∃ d rest, ds = d :: rest ∧ isBareChar d = false := by
    cases ds with
    | nil => cases hbreak
    | cons d rest =>
      refine ⟨d, rest, rfl, ?_⟩
      simpa [Breaks] using hbreak
  have hnext : (bare open').next d = start.next d := by simp [next, start, hd]
  have hrun : start.run (cs ++ d :: rest) = .bare word := by
    have hd := hds.run_eq
    rw [run, List.foldl_cons] at hd
    rw [run_append, hcs.run_eq, run, List.foldl_cons, hnext]
    exact hd
  refine ⟨hrun, ?_⟩
  have hfirst := hcs.any_eq
  rw [any_words_of_run hcs.run_eq] at hfirst
  have hsecond := hds.any_eq
  rw [any_words_of_run hds.run_eq] at hsecond
  have hended : (bare open').ended d = [open'] := by simp [ended, hd]
  have hempty : start.ended d = [[]] := by simp [ended, start, hd]
  rw [any_words_of_run hrun, passed_append, hcs.run_eq, List.any_append, ← hfirst, ← hsecond,
    passed, passed, hended, hempty, hnext]
  simp [isNonNumeral, Bool.or_assoc]

theorem Ends.append_parts (hcs : Ends cs b) (hbreak : Breaks ds = true) (hds : Parts ds c) :
    Parts (cs ++ ds) (b || c) :=
  hcs.append_leads hbreak hds

end Pieces

/-! ## String literals -/

section Literal

variable {cs taken rest : List Char}

/-- What a literal is read from has no bare word. -/
theorem literal_run (h : Term.literalEnd? cs = some (taken, rest)) :
    literal.run taken = start ∧ literal.passed taken = [] := by
  fun_induction Term.literalEnd? cs generalizing taken with
  | case1 => cases h
  | case2 => cases h; exact ⟨rfl, rfl⟩
  | case3 c cs ih =>
    obtain ⟨⟨inner, after⟩, hsplit, heq⟩ := Option.map_eq_some_iff.mp h
    cases heq
    obtain ⟨hrun, hpassed⟩ := ih hsplit
    exact ⟨hrun, hpassed⟩
  | case4 c cs hquote hbackslash ih =>
    obtain ⟨⟨inner, after⟩, hsplit, heq⟩ := Option.map_eq_some_iff.mp h
    cases heq
    have hplain : c ≠ '\\' := by
      rintro rfl
      cases cs with
      | nil => cases hsplit
      | cons d ds => exact hbackslash d ds rfl rfl
    have hnext : literal.next c = .literal := by
      rw [next, if_neg hquote, if_neg hplain]
    obtain ⟨hrun, hpassed⟩ := ih hsplit
    refine ⟨?_, ?_⟩
    · rw [run, List.foldl_cons, hnext]
      exact hrun
    · rw [passed, hnext, hpassed]
      rfl

/-- A literal has no bare word, and any word may follow it. -/
theorem parts_stringLiteralChars (cs : List Char) : Parts (stringLiteralChars cs) false := by
  obtain ⟨hrun, hpassed⟩ := literal_run (Term.literalEnd?_literal cs [])
  have hstart : start.run (stringLiteralChars cs) = .bare [] := hrun
  have hwords : start.passed (stringLiteralChars cs) = [[]] := congrArg ([[]] ++ ·) hpassed
  refine ⟨hstart, ?_⟩
  rw [any_words_of_run hstart, hwords]
  rfl

end Literal

/-! ## Words and numerals -/

theorem bare_run {word cs : List Char} (h : ∀ c ∈ cs, isBareChar c = true) :
    (bare word).run cs = .bare (word ++ cs) ∧ (bare word).passed cs = [] := by
  induction cs generalizing word with
  | nil => exact ⟨by rw [List.append_nil]; rfl, rfl⟩
  | cons c cs ih =>
    have hc := h c List.mem_cons_self
    have hnext : (bare word).next c = .bare (word ++ [c]) := by rw [next, if_pos hc]
    have hended : (bare word).ended c = [] := by rw [ended, if_pos hc]
    obtain ⟨hrun, hpassed⟩ := @ih (word ++ [c]) fun d hd => h d (List.mem_cons_of_mem c hd)
    refine ⟨?_, ?_⟩
    · rw [List.append_assoc] at hrun
      rw [run, List.foldl_cons, hnext]
      exact hrun
    · rw [passed, hended, hnext, hpassed]
      rfl

theorem ends_word {cs : List Char} (h : ∀ c ∈ cs, isBareChar c = true) :
    Ends cs (isNonNumeral cs) := by
  obtain ⟨hrun, hpassed⟩ := @bare_run [] cs h
  refine ⟨cs, hrun, ?_⟩
  rw [any_words_of_run hrun, start, hpassed]
  rfl

/-- No word of a numeral is one of the two. -/
theorem not_isNonNumeral {word : List Char} (h : ∀ c ∈ word, Helper.isDecimalChar c = true) :
    isNonNumeral word = false := by
  cases hword : isNonNumeral word with
  | false => rfl
  | true =>
    rw [isNonNumeral, Bool.or_eq_true, beq_iff_eq, beq_iff_eq] at hword
    rcases hword with rfl | rfl
    · exact absurd (h 'N' (by decide)) (by decide)
    · exact absurd (h 'i' (by decide)) (by decide)

theorem numeral_run {word cs : List Char} (hword : ∀ c ∈ word, Helper.isDecimalChar c = true)
    (hcs : ∀ c ∈ cs, Helper.isDecimalChar c = true) :
    ∃ last, (bare word).run cs = .bare last ∧ (∀ c ∈ last, Helper.isDecimalChar c = true) ∧
      ((bare word).passed cs).any isNonNumeral = false := by
  induction cs generalizing word with
  | nil => exact ⟨word, rfl, hword, rfl⟩
  | cons c cs ih =>
    obtain ⟨hc, hcs⟩ := List.forall_mem_cons.mp hcs
    by_cases hbare : isBareChar c = true
    · have hlonger : ∀ d ∈ word ++ [c], Helper.isDecimalChar d = true := by
        intro d hd
        rcases List.mem_append.mp hd with hd | hd
        · exact hword d hd
        · rw [List.mem_singleton.mp hd, hc]
      obtain ⟨last, hrun, hlast, hpassed⟩ := ih hlonger hcs
      refine ⟨last, ?_, hlast, ?_⟩
      · rw [run, List.foldl_cons, next, if_pos hbare]
        exact hrun
      · rw [passed, ended, if_pos hbare, next, if_pos hbare]
        exact hpassed
    · have hquote : c ≠ '"' := by
        rintro rfl
        exact absurd hc (by decide)
      obtain ⟨last, hrun, hlast, hpassed⟩ := @ih [] (by simp) hcs
      refine ⟨last, ?_, hlast, ?_⟩
      · rw [run, List.foldl_cons, next, if_neg hbare, if_neg hquote]
        exact hrun
      · rw [passed, ended, if_neg hbare, next, if_neg hbare, if_neg hquote, List.any_append,
          List.any_cons, not_isNonNumeral hword]
        exact hpassed

theorem ends_numeral {cs : List Char} (h : ∀ c ∈ cs, Helper.isDecimalChar c = true) :
    Ends cs false := by
  obtain ⟨last, hrun, hlast, hpassed⟩ := @numeral_run [] cs (by simp) h
  refine ⟨last, hrun, ?_⟩
  rw [any_words_of_run hrun, start, hpassed, not_isNonNumeral hlast]
  rfl

/-- A float is written as one of the two words exactly if it has no numeral. -/
theorem ends_floatChars (x : Float) :
    Ends (Number.floatChars .source x) (!Number.isFinite x) := by
  cases hfinite : Number.isFinite x with
  | true => exact ends_numeral (Number.isDecimalChar_floatChars hfinite .source)
  | false =>
    rw [Number.isFinite] at hfinite
    cases hparts : Number.parts x with
    | finite negative m q =>
      rw [hparts] at hfinite
      cases hfinite
    | nan =>
      have htext : Number.floatChars .source x = ['N', 'a', 'N'] := by
        rw [Number.floatChars, hparts]
        rfl
      rw [htext]
      decide
    | infinite negative =>
      cases negative with
      | false =>
        have htext : Number.floatChars .source x = ['i', 'n', 'f'] := by
          rw [Number.floatChars, hparts]
          rfl
        rw [htext]
        decide
      | true =>
        have htext : Number.floatChars .source x = ['-', 'i', 'n', 'f'] := by
          rw [Number.floatChars, hparts]
          rfl
        rw [htext]
        decide

end Scan

/-! ## Expressions -/

/-- One of the floats is not finite. -/
def anyNonFinite (xs : List Float) : Bool := xs.any fun x => !Number.isFinite x

theorem anyNonFinite_append (xs ys : List Float) :
    anyNonFinite (xs ++ ys) = (anyNonFinite xs || anyNonFinite ys) :=
  List.any_append

theorem anyNonFinite_eq_false {xs : List Float} (h : ∀ x ∈ xs, Number.isFinite x = true) :
    anyNonFinite xs = false := by
  rw [anyNonFinite, List.any_eq_false]
  intro x hx
  rw [h x hx]
  exact Bool.false_ne_true

open Scan

theorem Symbol.ends_name (symbol : Symbol) : Ends symbol.name.toList false := by
  have hall : all.all (fun symbol => decide (Ends symbol.name.toList false)) = true := by
    decide +kernel
  exact of_decide_eq_true (List.all_eq_true.mp hall symbol (mem_all symbol))

namespace Term

mutual

theorem ends : ∀ t : Term, Ends t.chars (anyNonFinite t.numbers)
  | .word symbol => symbol.ends_name
  | .number x => by
    rw [chars, numbers, anyNonFinite, List.any_cons, List.any_nil, Bool.or_false]
    exact ends_floatChars x
  | .text s => (parts_stringLiteralChars s.toList).ends
  | .call symbol arguments => by
    rw [chars, numbers]
    exact (symbol.ends_name.append_parts rfl (parts_enclose arguments)).ends

theorem parts_enclose : ∀ ts : List Term,
    Parts ('(' :: enclose (charsAll ts)) (anyNonFinite (numbersAll ts))
  | [] => by decide
  | t :: ts => by
    have hopen : Parts ['('] false := by decide
    obtain ⟨hbreak, hfollow⟩ := parts_follow ts
    rw [charsAll, enclose, numbersAll, anyNonFinite_append]
    exact hopen.append ((ends t).append_parts hbreak hfollow)

theorem parts_follow : ∀ ts : List Term, Breaks (follow (charsAll ts)) = true ∧
    Parts (follow (charsAll ts)) (anyNonFinite (numbersAll ts))
  | [] => ⟨rfl, by decide⟩
  | t :: ts => by
    have hcomma : Parts [',', ' '] false := by decide
    obtain ⟨hbreak, hfollow⟩ := parts_follow ts
    rw [charsAll, follow, numbersAll, anyNonFinite_append]
    exact ⟨rfl, hcomma.append ((ends t).append_parts hbreak hfollow)⟩

end

end Term

end Source

open Source Scan

theorem Literal.ends_source (literal : Literal) :
    Ends literal.source.toList (anyNonFinite literal.numbers) := by
  rw [← chars_term, ← numbers_term]
  exact literal.term.ends

theorem Condition.ends_source (c : Condition) :
    Ends c.source.toList (anyNonFinite c.numbers) := by
  rw [← chars_term, ← numbers_term]
  exact c.term.ends

/-! ## Texts put together -/

namespace Source.Scan

section Texts

variable {s t : String} {b c : Bool}

/-- A written-out text is scanned as the list of its characters. -/
theorem parts_ofList {cs : List Char} (h : Parts cs b) : Parts (String.ofList cs).toList b := by
  rw [String.toList_ofList]
  exact h

/-- What is written out can be scanned where it stands. -/
theorem parts_written {cs : List Char} (h : decide (Parts cs b) = true) :
    Parts (String.ofList cs).toList b :=
  parts_ofList (of_decide_eq_true h)

theorem ends_written {cs : List Char} (h : decide (Ends cs b) = true) :
    Ends (String.ofList cs).toList b := by
  rw [String.toList_ofList]
  exact of_decide_eq_true h

theorem Parts.text_ends (hs : Parts s.toList b) (ht : Ends t.toList c) :
    Ends (s ++ t).toList (b || c) := by
  rw [String.toList_append]
  exact hs.append_ends ht

theorem Parts.text_parts (hs : Parts s.toList b) (ht : Parts t.toList c) :
    Parts (s ++ t).toList (b || c) := by
  rw [String.toList_append]
  exact hs.append ht

theorem Ends.text_parts (hs : Ends s.toList b) (hbreak : Breaks t.toList = true)
    (ht : Parts t.toList c) : Parts (s ++ t).toList (b || c) := by
  rw [String.toList_append]
  exact hs.append_parts hbreak ht

theorem ends_intercalate {items : List (String × Bool)}
    (h : ∀ item ∈ items, Ends item.1.toList item.2) :
    Ends (String.intercalate ", " (items.map (·.1))).toList (items.any (·.2)) := by
  induction items with
  | nil => exact ends_written rfl
  | cons first rest ih =>
    obtain ⟨hfirst, hrest⟩ := List.forall_mem_cons.mp h
    cases rest with
    | nil =>
      rw [List.map_cons, List.map_nil, String.intercalate_singleton, List.any_cons, List.any_nil,
        Bool.or_false]
      exact hfirst
    | cons second rest =>
      have hcomma : Parts ", ".toList false := parts_written rfl
      have hmore := (hfirst.text_parts rfl hcomma).text_ends (ih hrest)
      rw [Bool.or_false] at hmore
      rw [List.map_cons, List.map_cons, String.intercalate_cons_cons, List.any_cons]
      exact hmore

theorem ends_indented (h : Ends t.toList b) (depth : Nat) :
    Ends (Code.indented depth t).toList b := by
  have hblanks : Parts (String.ofList (List.replicate (4 * depth) ' ')).toList false := by
    refine parts_ofList ?_
    induction 4 * depth with
    | zero => decide
    | succ k ih =>
      have hblank : Parts [' '] false := by decide
      exact hblank.append ih
  exact hblanks.text_ends h

theorem Ends.nonNumeral_eq (h : Ends t.toList b) : nonNumeral t = b := by
  obtain ⟨word, h⟩ := h
  exact h.any_eq

/-- A name with a number behind it. -/
theorem ends_numbered {name : String} (hname : name.toList.all isBareChar = true)
    (hfirst : name.toList.head?.any (fun c => c != 'N' && c != 'i') = true) (n : Nat) :
    Ends (name ++ toString n).toList false := by
  have hdigits : (toString n : String).toList = Nat.toDigits 10 n := by
    rw [show (toString n : String) = String.ofList (Nat.toDigits 10 n) from rfl,
      String.toList_ofList]
  have hbare : ∀ c ∈ name.toList ++ Nat.toDigits 10 n, isBareChar c = true := by
    intro c hc
    rcases List.mem_append.mp hc with hc | hc
    · exact List.all_eq_true.mp hname c hc
    · have hdigit := Nat.isDigit_of_mem_toDigits (by decide) (by decide) hc
      have hword : isWordChar c = (c.isAlpha || c.isDigit) := rfl
      rw [isBareChar, hword, hdigit]
      simp
  have hother : isNonNumeral (name.toList ++ Nat.toDigits 10 n) = false := by
    cases hchars : name.toList with
    | nil =>
      rw [hchars] at hfirst
      cases hfirst
    | cons c cs =>
      rw [hchars, List.head?_cons, Option.any_some, Bool.and_eq_true, bne_iff_ne, bne_iff_ne]
        at hfirst
      simp [isNonNumeral, hfirst.1, hfirst.2]
  have h := ends_word hbare
  rw [hother] at h
  rw [String.toList_append, hdigits]
  exact h

end Texts

end Source.Scan

end ScoringTree
