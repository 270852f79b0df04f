import Mathlib.Data.List.Chain
import Mathlib.Algebra.Group.Even
import ScoringTree.Proofs.SourceReading
import ScoringTree.Source.Unit

/-!
# ScoringTree.Proofs.HeaderComment

The comment that a generated unit starts with shows texts of the model: its name and its rules. None
of them ends the comment.

* `Source.PairedSlashes`  — backslashes of a text stand in pairs; no unicode escape begins in it.
* `Source.Unended`        — no star of a text has a slash behind it.
* `Lexis.commentEnd?`     — what follows a comment.
* `ScoringUnit.comment_contained`
                          — the comment of a unit ends where the unit means it to.
-/

namespace ScoringTree

namespace Source

/-! ## Backslashes in pairs -/

/-- The backslashes of the text stand in pairs. -/
inductive PairedSlashes : List Char → Prop where
  | nil : PairedSlashes []
  | pair {cs : List Char} : PairedSlashes cs → PairedSlashes ('\\' :: '\\' :: cs)
  | other {c : Char} {cs : List Char} : c ≠ '\\' → PairedSlashes cs → PairedSlashes (c :: cs)

theorem PairedSlashes.append {cs ds : List Char} (hcs : PairedSlashes cs) (hds : PairedSlashes ds) :
    PairedSlashes (cs ++ ds) := by
  induction hcs with
  | nil => exact hds
  | pair _ ih => exact .pair ih
  | other hc _ ih => exact .other hc ih

theorem PairedSlashes.of_not_mem {cs : List Char} (h : '\\' ∉ cs) : PairedSlashes cs := by
  induction cs with
  | nil => exact .nil
  | cons c cs ih =>
    rw [List.mem_cons, not_or] at h
    exact .other (Ne.symm h.1) (ih h.2)

theorem pairedSlashes_doubleBackslashes (cs : List Char) :
    PairedSlashes (doubleBackslashes cs) := by
  induction cs with
  | nil => exact .nil
  | cons c cs ih =>
    rw [doubleBackslashes, List.flatMap_cons, ← doubleBackslashes]
    by_cases hc : c = '\\'
    · subst hc
      exact .pair ih
    · rw [if_neg (by simpa using hc)]
      exact .other hc ih

/-- A blank is put behind a star if a slash follows. -/
theorem breakTerminators_cons (c : Char) (cs : List Char) :
    breakTerminators (c :: cs) =
      c :: ((if c = '*' ∧ cs.head? = some '/' then [' '] else []) ++ breakTerminators cs) := by
  by_cases h : c = '*' ∧ cs.head? = some '/'
  · obtain ⟨rfl, hslash⟩ := h
    obtain ⟨ds, rfl⟩ := List.head?_eq_some_iff.mp hslash
    rfl
  · rw [if_neg h, List.nil_append]
    refine breakTerminators.eq_3 c cs ?_
    rintro ds rfl rfl
    exact h ⟨rfl, rfl⟩

theorem PairedSlashes.breakTerminators {cs : List Char} (h : PairedSlashes cs) :
    PairedSlashes (breakTerminators cs) := by
  induction h with
  | nil => exact .nil
  | pair _ ih =>
    rw [breakTerminators_cons, breakTerminators_cons]
    exact .pair ih
  | other hc _ ih =>
    rw [breakTerminators_cons]
    refine .other hc (PairedSlashes.append ?_ ih)
    split
    · exact .other (by decide) .nil
    · exact .nil

/-- Every run of backslashes that is as long as can be has an even length. -/
def EvenRuns (cs : List Char) : Prop :=
  ∀ front count back, cs = front ++ List.replicate count '\\' ++ back →
    front.getLast? ≠ some '\\' → back.head? ≠ some '\\' → Even count

theorem PairedSlashes.evenRuns {cs : List Char} (h : PairedSlashes cs) : EvenRuns cs := by
  induction h with
  | nil =>
    intro front count back heq _ _
    obtain ⟨-, rfl, -⟩ : front = [] ∧ count = 0 ∧ back = [] := by simpa using heq.symm
    exact Even.zero
  | @pair cs _ ih =>
    intro front count back heq hfront hback
    rcases front with _ | ⟨c, _ | ⟨d, front⟩⟩
    · -- the run starts with the pair
      rcases count with _ | _ | count
      · exact Even.zero
      · have hrest : '\\' :: cs = back := List.tail_eq_of_cons_eq heq
        exact absurd (by rw [← hrest]; rfl) hback
      · simp only [List.nil_append, List.replicate_succ, List.cons_append, List.cons.injEq,
          true_and] at heq
        have hcount : Even count := ih [] count back heq (by simp) hback
        exact hcount.add even_two
    · simp only [List.cons_append, List.cons.injEq] at heq
      exact absurd (by rw [← heq.1]; rfl) hfront
    · simp only [List.cons_append, List.cons.injEq] at heq
      refine ih front count back heq.2.2 ?_ hback
      cases front with
      | nil => simp
      | cons e front => simpa using hfront
  | @other c cs hc _ ih =>
    intro front count back heq hfront hback
    cases front with
    | nil =>
      cases count with
      | zero => exact Even.zero
      | succ count =>
        simp only [List.nil_append, List.replicate_succ, List.cons_append, List.cons.injEq] at heq
        exact absurd heq.1 hc
    | cons d front =>
      simp only [List.cons_append, List.cons.injEq] at heq
      refine ih front count back heq.2 ?_ hback
      cases front with
      | nil => simp
      | cons e front => simpa using hfront

/-! ## Ends of comments -/

/-- No star of the text has a slash behind it. -/
def Unended (cs : List Char) : Prop := cs.IsChain fun c d => ¬ (c = '*' ∧ d = '/')

theorem Unended.not_infix {cs : List Char} (h : Unended cs) : ¬ "*/".toList <:+: cs := by
  intro hinfix
  have hpair : Unended ['*', '/'] := List.IsChain.infix h hinfix
  exact List.isChain_pair.mp hpair ⟨rfl, rfl⟩

theorem head?_breakTerminators (cs : List Char) : (breakTerminators cs).head? = cs.head? := by
  cases cs with
  | nil => rfl
  | cons c cs => rw [breakTerminators_cons]; rfl

theorem unended_breakTerminators (cs : List Char) : Unended (breakTerminators cs) := by
  induction cs with
  | nil => exact .nil
  | cons c cs ih =>
    rw [breakTerminators_cons]
    split
    · refine List.IsChain.cons_cons (by simp) (List.IsChain.cons ih ?_)
      simp
    · rename_i hbroken
      rw [List.nil_append]
      refine List.IsChain.cons ih ?_
      rw [head?_breakTerminators]
      rintro d hd ⟨rfl, rfl⟩
      exact hbroken ⟨rfl, hd⟩

/-- A text that neither begins an escape nor ends a comment. -/
structure Harmless (cs : List Char) : Prop where
  paired : PairedSlashes cs
  unended : Unended cs

theorem harmless_commentText (s : String) : Harmless (commentText s).toList := by
  rw [commentText, String.toList_ofList]
  exact ⟨(pairedSlashes_doubleBackslashes s.toList).breakTerminators, unended_breakTerminators _⟩

theorem Harmless.append {cs ds : List Char} (hcs : Harmless cs) (hds : Harmless ds)
    (h : cs.getLast? ≠ some '*' ∨ ds.head? ≠ some '/') : Harmless (cs ++ ds) := by
  refine ⟨hcs.paired.append hds.paired, List.IsChain.append hcs.unended hds.unended ?_⟩
  rintro c hc d hd ⟨rfl, rfl⟩
  rcases h with hlast | hhead
  · exact hlast hc
  · exact hhead hd

end Source

namespace Lexis

open Source (PairedSlashes Unended)

theorem units_cons (c : Char) (cs : List Char) :
    Text.units (c :: cs) = Text.charUnits c ++ Text.units cs :=
  List.flatMap_cons

/-- Unicode escapes are replaced around a text whose backslashes stand in pairs, not in it. -/
theorem translate_pairedSlashes {cs : List Char} (h : PairedSlashes cs) (us : List Nat) :
    translate false (Text.units cs ++ us) = (translate false us).map (Text.units cs ++ ·) := by
  induction h with
  | nil => simp [Text.units]
  | @pair cs _ ih =>
    have hunits : Text.units ('\\' :: '\\' :: cs) = '\\'.toNat :: '\\'.toNat :: Text.units cs := rfl
    rw [hunits, List.cons_append, List.cons_append, translate_pair (by decide), ih, Option.map_map]
    rfl
  | @other c cs hc _ ih =>
    rw [units_cons, List.append_assoc,
      translate_append (ne_of_mem_charUnits hc (by decide)), ih, Option.map_map]
    simp only [Function.comp_def, List.append_assoc]

/-- The unit can be no part of a unicode escape. -/
def Stops (u : Nat) : Prop :=
  u ≠ '\\'.toNat ∧ u ≠ 'u'.toNat ∧ Json.hexDigit? (Char.ofNat u) = none

theorem unicodeEscape?_append {stop : Nat} (h : Stops stop) (us vs : List Nat) :
    unicodeEscape? (us ++ stop :: vs) =
      (unicodeEscape? us).map fun escape => (escape.1, escape.2 ++ stop :: vs) := by
  have hdrop : (us ++ stop :: vs).dropWhile (· == 'u'.toNat) =
      us.dropWhile (· == 'u'.toNat) ++ stop :: vs := by
    induction us with
    | nil => exact List.dropWhile_cons_of_neg (by simpa using h.2.1)
    | cons u us ih =>
      simp only [List.cons_append, List.dropWhile_cons, ih]
      split <;> rfl
  have hnone : ∀ a b c d, stop ∈ [a, b, c, d] →
      Json.hexUnit? (Char.ofNat a) (Char.ofNat b) (Char.ofNat c) (Char.ofNat d) = none := by
    intro a b c d hmem
    rw [Json.hexUnit?]
    split
    · rename_i ha hb hc hd
      simp only [List.mem_cons, List.not_mem_nil, or_false] at hmem
      rcases hmem with rfl | rfl | rfl | rfl <;> simp_all [Stops]
    · rfl
  rw [unicodeEscape?, unicodeEscape?, hdrop]
  -- with fewer than four units in front of it, the stop would be one of the digits
  rcases us.dropWhile (· == 'u'.toNat) with _ | ⟨a, _ | ⟨b, _ | ⟨c, _ | ⟨d, rest⟩⟩⟩⟩
  · rcases vs with _ | ⟨e, _ | ⟨f, _ | ⟨g, vs⟩⟩⟩ <;> simp [hnone]
  · rcases vs with _ | ⟨e, _ | ⟨f, vs⟩⟩ <;> simp [hnone]
  · rcases vs with _ | ⟨e, vs⟩ <;> simp [hnone]
  · simp [hnone]
  · simp only [List.cons_append, Option.map_map]
    rfl

theorem translate_stop {stop : Nat} (h : Stops stop) (odd : Bool) (us vs : List Nat) :
    translate odd (us ++ stop :: vs) =
      (translate odd us).bind fun before =>
        (translate false vs).map fun behind => before ++ stop :: behind := by
  have hstop : ∀ odd, translate odd (stop :: vs) = (translate false vs).map (stop :: ·) :=
    fun odd => translate_plain h.1 odd vs
  have hhead : ∀ us : List Nat, (us ++ stop :: vs).head? = some 'u'.toNat ↔
      us.head? = some 'u'.toNat := by
    intro us
    cases us with
    | nil => simpa using h.2.1
    | cons u us => rfl
  have hcons : ∀ (u : Nat) (out : Option (List Nat)),
      (out.bind fun before => (translate false vs).map fun behind => before ++ stop :: behind).map
        (u :: ·) =
      (out.map (u :: ·)).bind fun before =>
        (translate false vs).map fun behind => before ++ stop :: behind := by
    intro u out
    cases out <;> simp [Function.comp_def]
  fun_induction translate odd us with
  | case1 odd => exact hstop odd
  | case2 odd u us hslash hmarker unit rest hescape ih =>
    have happend : unicodeEscape? (us ++ stop :: vs) = some (unit, rest ++ stop :: vs) := by
      rw [unicodeEscape?_append h, hescape]
      rfl
    rw [List.cons_append, translate, if_pos hslash, if_pos ((hhead us).mpr hmarker)]
    split
    · rename_i heq
      cases happend.symm.trans heq
      rw [ih, hcons]
    · rename_i heq
      cases happend.symm.trans heq
  | case3 odd u us hslash hmarker hescape =>
    have happend : unicodeEscape? (us ++ stop :: vs) = none := by
      rw [unicodeEscape?_append h, hescape]
      rfl
    rw [List.cons_append, translate, if_pos hslash, if_pos ((hhead us).mpr hmarker)]
    split
    · rename_i heq
      cases happend.symm.trans heq
    · rfl
  | case4 odd u us hslash hmarker ih =>
    rw [List.cons_append, translate, if_pos hslash, if_neg fun hu => hmarker ((hhead us).mp hu), ih,
      hcons]
  | case5 odd u us hslash ih =>
    rw [List.cons_append, translate, if_neg hslash, ih, hcons]

/-- What follows a comment, read from behind its opening on. -/
def commentEnd? : List Nat → Option (List Nat)
  | [] => none
  | u :: us =>
    if u = '*'.toNat ∧ us.head? = some '/'.toNat then some us.tail else commentEnd? us

theorem commentEnd?_plain {plain : List Nat} (h : ∀ u ∈ plain, u ≠ '*'.toNat) (us : List Nat) :
    commentEnd? (plain ++ us) = commentEnd? us := by
  induction plain with
  | nil => rfl
  | cons u plain ih =>
    rw [List.cons_append, commentEnd?, if_neg fun hstar => h u List.mem_cons_self hstar.1]
    exact ih fun v hv => h v (List.mem_cons_of_mem u hv)

theorem head?_units_ne {c d : Char} (h : c ≠ d) (hd : d.toNat < 0x80) (cs : List Char)
    (us : List Nat) : (Text.units (c :: cs) ++ us).head? ≠ some d.toNat := by
  obtain ⟨u, more, hu⟩ : ∃ u more, Text.charUnits c = u :: more := by
    rw [Text.charUnits]
    split <;> exact ⟨_, _, rfl⟩
  intro hhead
  rw [units_cons, hu] at hhead
  exact ne_of_mem_charUnits h hd u (by rw [hu]; exact List.mem_cons_self) (Option.some.inj hhead)

theorem commentEnd?_append {cs : List Char} (h : Unended cs) (hlast : cs.getLast? ≠ some '*')
    (us : List Nat) : commentEnd? (Text.units cs ++ us) = commentEnd? us := by
  induction cs with
  | nil => rfl
  | cons c cs ih =>
    have hrest : commentEnd? (Text.units cs ++ us) = commentEnd? us := by
      refine ih (List.isChain_cons.mp h).2 ?_
      cases cs with
      | nil => simp
      | cons d cs => simpa using hlast
    rw [units_cons, List.append_assoc]
    by_cases hstar : c = '*'
    · subst hstar
      -- behind the star stands a character, and it is no slash
      cases cs with
      | nil => exact absurd rfl hlast
      | cons d cs =>
        have hslash : d ≠ '/' := fun hd => (List.isChain_cons_cons.mp h).1 ⟨rfl, hd⟩
        change commentEnd? ('*'.toNat :: (Text.units (d :: cs) ++ us)) = commentEnd? us
        rw [commentEnd?, if_neg fun hend => head?_units_ne hslash (by decide) cs us hend.2, hrest]
    · rw [commentEnd?_plain (ne_of_mem_charUnits hstar (by decide)), hrest]

end Lexis

/-! ## The comment of a unit -/

namespace Source

theorem Harmless.of_plain {cs : List Char} (hslash : '\\' ∉ cs) (hend : Unended cs) : Harmless cs :=
  ⟨.of_not_mem hslash, hend⟩

namespace Code

theorem linesAll_append (depth : Nat) (codes more : List Code) :
    linesAll depth (codes ++ more) = linesAll depth codes ++ linesAll depth more := by
  induction codes with
  | nil => rfl
  | cons code codes ih => rw [List.cons_append, linesAll, linesAll, ih, List.append_assoc]

theorem print_append (codes more : List Code) :
    print (codes ++ more) = print codes ++ print more := by
  rw [print, linesAll_append, List.map_append, String.join_append, ← print, ← print]

theorem indented_zero (text : String) : indented 0 text = text := by
  simp [indented]

theorem print_line (text : String) (codes : List Code) :
    print (.line text :: codes) = text ++ "\n" ++ print codes := by
  rw [print, linesAll, lines, indented_zero, List.singleton_append, List.map_cons, String.join_cons,
    ← print]

theorem print_lines (texts : List String) :
    print (texts.map Code.line) = String.join (texts.map (· ++ "\n")) := by
  induction texts with
  | nil => rfl
  | cons text texts ih => rw [List.map_cons, print_line, ih, List.map_cons, String.join_cons]

end Code
end Source

namespace ScoringUnit

open Source

/-- What a unit has in front of its comment. -/
def opening (unit : ScoringUnit) : String :=
  Code.print
    ((if unit.package.isEmpty then [] else [.line ("package " ++ unit.package ++ ";"), .blank]) ++
      (unit.frame.imports.map fun name => .line ("import " ++ name ++ ";"))) ++ "\n"

/-- What stands between the two ends of the comment. -/
def commentInside (unit : ScoringUnit) : String :=
  "\n * Scoring unit for tree model " ++ commentText unit.modelName ++ ".\n *\n * Rules:\n" ++
    String.join (unit.rules.map fun rule => " *   " ++ commentText rule ++ "\n")

/-- What a unit has behind its comment. -/
def closing (unit : ScoringUnit) : String :=
  "\n" ++ Code.print [.block unit.classHead unit.classBody]

theorem print_rules (rules : List String) :
    Code.print (rules.map fun rule => .line (" *   " ++ commentText rule)) =
      String.join (rules.map fun rule => " *   " ++ commentText rule ++ "\n") := by
  have h := Code.print_lines (rules.map fun rule => " *   " ++ commentText rule)
  simp only [List.map_map, Function.comp_def] at h
  exact h

theorem print_comment (unit : ScoringUnit) :
    Code.print unit.comment = "/**" ++ unit.commentInside ++ " */" ++ "\n" := by
  have hnil : Code.print [] = "" := rfl
  have hname : "\n * Scoring unit for tree model " =
      "\n" ++ " * Scoring unit for tree model " := rfl
  have hrules : ".\n *\n * Rules:\n" =
      "." ++ ("\n" ++ (" *" ++ ("\n" ++ (" * Rules:" ++ "\n")))) := rfl
  delta commentInside
  simp only [comment, Code.print_append, print_rules, Code.print_line, hnil, hname, hrules,
    String.append_assoc, String.append_empty]

theorem text_eq (unit : ScoringUnit) :
    unit.text = unit.opening ++ ("/**" ++ unit.commentInside ++ " */") ++ unit.closing := by
  have hblank : ∀ codes, Code.print (.blank :: codes) = "\n" ++ Code.print codes := by
    intro codes
    rw [Code.print, Code.linesAll, Code.lines, List.singleton_append, List.map_cons,
      String.join_cons, String.empty_append, ← Code.print]
  simp only [text, code, Code.print_append, hblank, print_comment, opening, closing,
    String.append_assoc]

theorem harmless_rule (rule : String) : Harmless (" *   " ++ commentText rule ++ "\n").toList := by
  rw [String.toList_append, String.toList_append]
  have hfront : Harmless " *   ".toList := .of_plain (by decide) (by unfold Unended; decide)
  have hback : Harmless "\n".toList := .of_plain (by decide) (by unfold Unended; decide)
  exact (hfront.append (harmless_commentText rule) (.inl (by decide))).append hback
    (.inr (by decide))

theorem harmless_rules (rules : List String) :
    Harmless (String.join (rules.map fun rule => " *   " ++ commentText rule ++ "\n")).toList := by
  induction rules with
  | nil => exact ⟨.nil, .nil⟩
  | cons rule rules ih =>
    rw [List.map_cons, String.join_cons, String.toList_append]
    refine (harmless_rule rule).append ih (.inl ?_)
    rw [String.toList_append, List.getLast?_append]
    simp

theorem harmless_commentInside (unit : ScoringUnit) : Harmless unit.commentInside.toList := by
  have hfront : Harmless "\n * Scoring unit for tree model ".toList :=
    .of_plain (by decide) (by unfold Unended; decide)
  have hmiddle : Harmless ".\n *\n * Rules:\n".toList :=
    .of_plain (by decide) (by unfold Unended; decide)
  delta commentInside
  rw [String.toList_append, String.toList_append, String.toList_append]
  refine ((hfront.append (harmless_commentText _) (.inl (by decide))).append hmiddle
    (.inr (by decide))).append (harmless_rules unit.rules) (.inl ?_)
  rw [List.getLast?_append]
  simp

theorem pairedSlashes_comment (unit : ScoringUnit) :
    PairedSlashes ("/**" ++ unit.commentInside ++ " */").toList := by
  rw [String.toList_append, String.toList_append]
  exact ((PairedSlashes.of_not_mem (by decide)).append (harmless_commentInside unit).paired).append
    (.of_not_mem (by decide))

/-- What replacing the unicode escapes of a unit does to its comment: nothing. -/
theorem translate_text (unit : ScoringUnit) :
    Lexis.translate false (Text.units unit.text.toList) =
      (Lexis.translate false (Text.units unit.opening.toList)).bind fun before =>
        (Lexis.translate false (Text.units unit.closing.toList)).map fun behind =>
          before ++ Text.units ("/**" ++ unit.commentInside ++ " */").toList ++ behind := by
  -- a line ends in front of the comment, so no escape reaches into it
  obtain ⟨front, hfront⟩ : ∃ front : String, unit.opening = front ++ "\n" := ⟨_, rfl⟩
  have hstops : Lexis.Stops '\n'.toNat := ⟨by decide, by decide, by decide⟩
  have hpaired := unit.pairedSlashes_comment
  rw [text_eq, hfront]
  generalize "/**" ++ unit.commentInside ++ " */" = comment at hpaired ⊢
  have hunits : Text.units (front ++ "\n" ++ comment ++ unit.closing).toList =
      Text.units front.toList ++
        '\n'.toNat :: (Text.units comment.toList ++ Text.units unit.closing.toList) := by
    simp only [String.toList_append, Lexis.units_append, List.append_assoc]
    rfl
  have hopening : Lexis.translate false (Text.units (front ++ "\n").toList) =
      (Lexis.translate false (Text.units front.toList)).map (· ++ ['\n'.toNat]) := by
    rw [String.toList_append, Lexis.units_append]
    change Lexis.translate false (Text.units front.toList ++ '\n'.toNat :: []) = _
    rw [Lexis.translate_stop hstops, Lexis.translate]
    cases Lexis.translate false (Text.units front.toList) <;> rfl
  rw [hunits, Lexis.translate_stop hstops, Lexis.translate_pairedSlashes hpaired, hopening]
  cases Lexis.translate false (Text.units front.toList) with
  | none => rfl
  | some before => simp [Function.comp_def]

/-- Read from behind its opening on, the comment ends with the end that the unit gives it. -/
theorem commentEnd?_comment (unit : ScoringUnit) (behind : List Nat) :
    Lexis.commentEnd? (Text.units ("*" ++ unit.commentInside ++ " */").toList ++ behind) =
      some behind := by
  have hstar : Harmless "*".toList := .of_plain (by decide) (by unfold Unended; decide)
  have hblank : Harmless " ".toList := .of_plain (by decide) (by unfold Unended; decide)
  have hhead : unit.commentInside.toList.head? = some '\n' := by
    delta commentInside
    simp only [String.toList_append, List.append_assoc]
    rfl
  have hharmless : Harmless ("*".toList ++ unit.commentInside.toList ++ " ".toList) :=
    (hstar.append (harmless_commentInside unit) (.inr (by rw [hhead]; decide))).append hblank
      (.inr (by decide))
  have hunits : Text.units ("*" ++ unit.commentInside ++ " */").toList ++ behind =
      Text.units ("*".toList ++ unit.commentInside.toList ++ " ".toList) ++
        '*'.toNat :: '/'.toNat :: behind := by
    simp only [String.toList_append, Lexis.units_append, List.append_assoc]
    rfl
  have hlast : ("*".toList ++ unit.commentInside.toList ++ " ".toList).getLast? ≠ some '*' := by
    rw [List.getLast?_append]
    simp
  rw [hunits, Lexis.commentEnd?_append hharmless.unended hlast, Lexis.commentEnd?,
    if_pos ⟨rfl, rfl⟩]
  rfl

/-- Whatever the model is called and whatever its rules say, the comment of a unit goes on to the
end that the unit gives it. Nothing inside ends it, and nothing inside begins a unicode escape that
could stand for an end. -/
theorem comment_contained (unit : ScoringUnit) :
    unit.text = unit.opening ++ ("/**" ++ unit.commentInside ++ " */") ++ unit.closing ∧
    (¬ "*/".toList <:+: unit.commentInside.toList ∧ EvenRuns unit.commentInside.toList) ∧
    Lexis.translate false (Text.units unit.commentInside.toList) =
      some (Text.units unit.commentInside.toList) ∧
    Lexis.translate false (Text.units unit.text.toList) =
      ((Lexis.translate false (Text.units unit.opening.toList)).bind fun before =>
        (Lexis.translate false (Text.units unit.closing.toList)).map fun behind =>
          before ++ Text.units ("/**" ++ unit.commentInside ++ " */").toList ++ behind) ∧
    ∀ behind, Lexis.commentEnd?
      (Text.units ("*" ++ unit.commentInside ++ " */").toList ++ behind) = some behind := by
  have hinside := harmless_commentInside unit
  refine ⟨text_eq unit, ⟨hinside.unended.not_infix, hinside.paired.evenRuns⟩, ?_,
    translate_text unit, commentEnd?_comment unit⟩
  have htranslate := Lexis.translate_pairedSlashes hinside.paired []
  rwa [List.append_nil, Lexis.translate, Option.map_some, List.append_nil] at htranslate

end ScoringUnit

end ScoringTree
