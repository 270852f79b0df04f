import ScoringTree.Proofs.UnitLines

/-!
# ScoringTree.Proofs.SingleLines

The constants and methods of a generated unit, line by line.

Texts that come from a model stand in string literals, where the end of a line is escaped. So what
is made as one line of a constant or of a method is one line of the text.

* `Source.OneLine`                  — the text goes over no end of a line.
* `Source.oneLine_escapeChar`       — string literals do not.
* `Source.oneLine_source`           — conditions do not.
* `ScoringUnit.oneLine_constantLines`, `ScoringUnit.oneLine_scoringLines`
                                    — the lines of a unit do not.
-/

namespace ScoringTree

namespace Source

/-- The text goes over no end of a line. -/
def OneLine (text : String) : Prop := '\n' ∉ text.toList

instance (text : String) : Decidable (OneLine text) :=
  inferInstanceAs (Decidable ('\n' ∉ text.toList))

theorem OneLine.append {text more : String} (htext : OneLine text) (hmore : OneLine more) :
    OneLine (text ++ more) := by
  rw [OneLine, String.toList_append, List.mem_append, not_or]
  exact ⟨htext, hmore⟩

theorem oneLine_ofList {cs : List Char} (h : '\n' ∉ cs) : OneLine (String.ofList cs) := by
  rw [OneLine, String.toList_ofList]
  exact h

/-! ## Literals and conditions -/

theorem oneLine_escapeChar (c : Char) : '\n' ∉ escapeChar c := by
  have hdigit : ∀ k < 16, '\n' ≠ Nat.digitChar k := by decide
  by_cases hshort : c ∈ Lexis.shortEscaped
  · simp only [Lexis.shortEscaped, List.mem_cons, List.not_mem_nil, or_false] at hshort
    rcases hshort with rfl | rfl | rfl | rfl | rfl <;> decide
  · rw [Lexis.escapeChar_long hshort]
    by_cases hcontrol : isControl c = true
    · rw [if_pos hcontrol, List.mem_append, not_or]
      refine ⟨by decide, fun hmem => ?_⟩
      obtain ⟨k, hk, heq⟩ := Term.mem_hexPadded hcontrol hmem
      exact hdigit k hk heq
    · rw [if_neg hcontrol, List.mem_singleton]
      rintro rfl
      exact hshort (by decide)

theorem oneLine_stringLiteralChars (cs : List Char) : '\n' ∉ stringLiteralChars cs := by
  rw [stringLiteralChars, List.mem_cons, List.mem_append, List.mem_flatMap]
  rintro (h | ⟨c, -, h⟩ | h)
  · exact absurd h (by decide)
  · exact oneLine_escapeChar c h
  · exact absurd h (by decide)

theorem oneLine_floatChars (x : Float) : '\n' ∉ Number.floatChars .source x := by
  cases hfinite : Number.isFinite x with
  | true =>
    intro h
    exact absurd (Number.isDecimalChar_floatChars hfinite .source _ h) (by decide)
  | false =>
    rw [Number.isFinite] at hfinite
    rw [Number.floatChars]
    cases hparts : Number.parts x with
    | finite negative m q =>
      rw [hparts] at hfinite
      cases hfinite
    | nan => decide
    | infinite negative => cases negative <;> decide

theorem oneLine_symbol (symbol : Symbol) : '\n' ∉ symbol.name.toList := by
  obtain ⟨c, cs, hname, -, -, hchars⟩ := symbol.name_chars
  rw [hname]
  intro h
  exact absurd (hchars _ h) (by decide)

theorem oneLine_follow {arguments : List (List Char)} (h : ∀ cs ∈ arguments, '\n' ∉ cs) :
    '\n' ∉ follow arguments := by
  induction arguments with
  | nil => decide
  | cons cs more ih =>
    obtain ⟨hcs, hmore⟩ := List.forall_mem_cons.mp h
    simp only [follow, List.mem_cons, List.mem_append, not_or]
    exact ⟨by decide, by decide, hcs, ih hmore⟩

theorem oneLine_enclose {arguments : List (List Char)} (h : ∀ cs ∈ arguments, '\n' ∉ cs) :
    '\n' ∉ enclose arguments := by
  cases arguments with
  | nil => decide
  | cons cs more =>
    obtain ⟨hcs, hmore⟩ := List.forall_mem_cons.mp h
    rw [enclose, List.mem_append, not_or]
    exact ⟨hcs, oneLine_follow hmore⟩

mutual

theorem Term.oneLine_chars : ∀ t : Term, '\n' ∉ t.chars
  | .word symbol => oneLine_symbol symbol
  | .number x => oneLine_floatChars x
  | .text s => oneLine_stringLiteralChars s.toList
  | .call symbol arguments => by
    rw [chars, List.mem_append, List.mem_cons]
    rintro (h | h | h)
    · exact oneLine_symbol symbol h
    · exact absurd h (by decide)
    · exact oneLine_enclose (Term.oneLine_charsAll arguments) h

theorem Term.oneLine_charsAll : ∀ ts : List Term, ∀ cs ∈ Term.charsAll ts, '\n' ∉ cs
  | [], cs, h => by
    rw [charsAll] at h
    cases h
  | t :: ts, cs, h => by
    rw [charsAll] at h
    rcases List.mem_cons.mp h with rfl | h
    · exact Term.oneLine_chars t
    · exact Term.oneLine_charsAll ts cs h

end

theorem oneLine_source (condition : Condition) : OneLine condition.source := by
  rw [OneLine, ← condition.chars_term]
  exact condition.term.oneLine_chars

theorem oneLine_intercalate {items : List String} (h : ∀ item ∈ items, OneLine item) :
    OneLine (String.intercalate ", " items) := by
  induction items with
  | nil => decide
  | cons first rest ih =>
    obtain ⟨hfirst, hrest⟩ := List.forall_mem_cons.mp h
    cases rest with
    | nil =>
      rw [String.intercalate_singleton]
      exact hfirst
    | cons second rest =>
      rw [String.intercalate_cons_cons]
      exact (hfirst.append (by decide)).append (ih hrest)

namespace Code

/-! ## Code -/

theorem oneLine_indented {text : String} (h : OneLine text) (depth : Nat) :
    OneLine (indented depth text) := by
  refine (oneLine_ofList fun hmem => ?_).append h
  exact absurd (List.eq_of_mem_replicate hmem) (by decide)

/-- No line of the code goes over the end of a line. -/
def Single (codes : List Code) : Prop := ∀ depth, ∀ line ∈ linesAll depth codes, OneLine line

theorem single_nil : Single [] := by
  intro depth line hline
  rw [linesAll] at hline
  cases hline

theorem Single.append {codes more : List Code} (hcodes : Single codes) (hmore : Single more) :
    Single (codes ++ more) := by
  intro depth
  rw [linesAll_append]
  exact List.forall_mem_append.mpr ⟨hcodes depth, hmore depth⟩

theorem single_of_forall {codes : List Code} (h : ∀ code ∈ codes, Single [code]) :
    Single codes := by
  induction codes with
  | nil => exact single_nil
  | cons code rest ih =>
    obtain ⟨hcode, hrest⟩ := List.forall_mem_cons.mp h
    exact hcode.append (ih hrest)

theorem single_blank : Single [.blank] := by
  intro depth line hline
  rw [linesAll_singleton, lines, List.mem_singleton] at hline
  rw [hline]
  decide

theorem single_line {text : String} (h : OneLine text) : Single [.line text] := by
  intro depth line hline
  rw [linesAll_singleton, lines, List.mem_singleton] at hline
  rw [hline]
  exact oneLine_indented h depth

theorem single_block {head : String} {body : List Code} (hhead : OneLine head)
    (hbody : Single body) : Single [.block head body] := by
  intro depth line hline
  rw [linesAll_singleton, lines, List.mem_cons, List.mem_append, List.mem_singleton] at hline
  rcases hline with rfl | hline | rfl
  · exact oneLine_indented (hhead.append (by decide)) depth
  · exact hbody (depth + 1) line hline
  · exact oneLine_indented (by decide) depth

theorem single_spaced {codes : List Code} (h : ∀ code ∈ codes, Single [code]) :
    Single (spaced codes) := by
  refine single_of_forall fun code hcode => ?_
  rcases mem_spaced hcode with rfl | hcode
  · exact single_blank
  · exact h code hcode

end Code

end Source

namespace ScoringUnit

open Source Code

/-! ## Constants and methods -/

theorem oneLine_numbered {name : String} (h : OneLine name) (n : Nat) :
    OneLine (name ++ toString n) :=
  not_mem_numbered h (by decide) n

theorem oneLine_arrayText {type : String} {items : List String} (htype : OneLine type)
    (hitems : ∀ item ∈ items, OneLine item) : OneLine (arrayText type items) := by
  have hnew : OneLine "new " := by decide
  exact (((hnew.append htype).append (by decide)).append (oneLine_intercalate hitems)).append
    (by decide)

theorem oneLine_outcomeArguments (outcome : Outcome) : OneLine (outcomeArguments outcome) := by
  have hlabels :
      OneLine (arrayText "String" (outcome.confidences.map fun c => stringLiteral c.1)) := by
    refine oneLine_arrayText (by decide) (List.forall_mem_map.mpr fun c _ => ?_)
    exact oneLine_ofList (oneLine_stringLiteralChars c.1.toList)
  have hshares :
      OneLine (arrayText "double" (outcome.confidences.map fun c => doubleLiteral c.2)) := by
    refine oneLine_arrayText (by decide) (List.forall_mem_map.mpr fun c _ => ?_)
    exact oneLine_ofList (oneLine_floatChars c.2)
  have hscore : OneLine outcome.score.source := by
    rw [OneLine, ← outcome.score.chars_term]
    exact outcome.score.term.oneLine_chars
  have hid : OneLine (stringLiteral outcome.nodeId) :=
    oneLine_ofList (oneLine_stringLiteralChars outcome.nodeId.toList)
  refine oneLine_intercalate ?_
  simp only [List.forall_mem_cons, hid, hscore, hlabels, hshares, List.not_mem_nil, false_imp_iff,
    implies_true, and_self]

theorem oneLine_constantLines (unit : ScoringUnit) :
    ∀ line ∈ unit.constantLines, OneLine line := by
  refine single_of_forall (List.forall_mem_map.mpr fun outcome _ => ?_) 1
  have hprivate : OneLine "private static final Outcome " := by decide
  exact single_line ((((hprivate.append (oneLine_numbered (by decide) outcome.node)).append
    (by decide)).append (oneLine_outcomeArguments outcome)).append (by decide))

theorem oneLine_call (node : Nat) : OneLine (call node) :=
  (oneLine_numbered (by decide) node).append (by decide)

theorem oneLine_replyText (reply : Reply) : OneLine (replyText reply) := by
  cases reply with
  | none => exact (by decide : OneLine "null")
  | some node => exact oneLine_numbered (by decide) node

theorem single_returnLine {expression : String} (h : OneLine expression) :
    Single [returnLine expression] := by
  have hreturn : OneLine "return " := by decide
  exact single_line ((hreturn.append h).append (by decide))

theorem single_guardCode (condition : Condition) : Single [guardCode condition] := by
  have hif : OneLine "if (!isTrue(" := by decide
  exact single_block ((hif.append (oneLine_source condition)).append (by decide))
    (single_returnLine (oneLine_replyText none))

theorem single_stepCode (step : UnitStep) : Single (stepCode step) := by
  have hmatched : OneLine "matched = " := by decide
  have htest := single_line ((hmatched.append (oneLine_source step.condition)).append
    (show OneLine ";" by decide))
  have hchild := single_block (show OneLine "if (isTrue(matched))" by decide)
    (single_returnLine (oneLine_call step.child))
  refine (htest.append hchild).append (single_of_forall ?_)
  refine List.forall_mem_map.mpr fun reaction _ => single_block (by decide) ?_
  cases reaction with
  | reply reply => exact single_returnLine (oneLine_replyText reply)
  | descend node => exact single_returnLine (oneLine_call node)

theorem single_bodyCode (body : MethodBody) : Single (bodyCode body) := by
  cases body with
  | leaf reply => exact single_returnLine (oneLine_replyText reply)
  | choice steps fallback =>
    have hsteps : Single (steps.flatMap stepCode) := by
      induction steps with
      | nil => exact single_nil
      | cons step rest ih => exact (single_stepCode step).append ih
    exact (single_line (by decide)).append
      (hsteps.append (single_returnLine (oneLine_replyText fallback)))

theorem single_evaluateBody (unit : ScoringUnit) : Single unit.evaluateBody := by
  have hguards : ∀ conditions : List Condition, Single (conditions.map guardCode) := fun _ =>
    single_of_forall (List.forall_mem_map.mpr fun condition _ => single_guardCode condition)
  exact ((hguards _).append (hguards _)).append (single_returnLine (oneLine_call unit.root))

theorem oneLine_scoringLines (unit : ScoringUnit) : ∀ line ∈ unit.scoringLines, OneLine line := by
  have hmembers : ∀ m ∈ unit.members, Single [m.code] := by
    refine List.forall_mem_cons.mpr ⟨?_, List.forall_mem_map.mpr fun method _ => ?_⟩
    · have hpublic : OneLine "public Outcome evaluate" := by decide
      exact single_block (hpublic.append (by decide)) unit.single_evaluateBody
    · have hprivate : OneLine "private Outcome " := by decide
      exact single_block ((hprivate.append (oneLine_numbered (by decide) method.node)).append
        (by decide)) (single_bodyCode method.body)
  rw [scoringLines_eq]
  exact single_spaced (List.forall_mem_map.mpr hmembers) 1

end ScoringUnit

end ScoringTree
