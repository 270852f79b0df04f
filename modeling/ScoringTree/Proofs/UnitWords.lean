import ScoringTree.Proofs.Agreement
import ScoringTree.Proofs.BareWords
import ScoringTree.Proofs.UnitLines

/-!
# ScoringTree.Proofs.UnitWords

The words for floats without a numeral in the lines of a generated unit.

* `Source.Code.Free`  — the code has none of these words.
* `ScoringUnit.free_evaluateCode`, `ScoringUnit.free_methodCode`
                      — methods are free of them if the numbers of their conditions are finite.
* `ScoringUnit.nonNumeral_outcomeCode`
                      — an outcome has one exactly if its score or a confidence is not finite.
* `Source.free_support`
                      — what all units share is free of them.
-/

namespace ScoringTree

open Source Scan

/-! ## Lines of a unit -/

namespace Source.Code

/-- No line of the code has one of the two words, at whatever depth it stands. -/
def Free (code : Code) : Prop := ∀ depth, ∀ line ∈ code.lines depth, nonNumeral line = false

def AllFree (codes : List Code) : Prop := ∀ code ∈ codes, Free code

theorem AllFree.nil : AllFree [] := List.forall_mem_nil Free

theorem AllFree.cons {code : Code} {rest : List Code} (hcode : Free code) (hrest : AllFree rest) :
    AllFree (code :: rest) :=
  List.forall_mem_cons.mpr ⟨hcode, hrest⟩

theorem AllFree.append {codes more : List Code} (hcodes : AllFree codes) (hmore : AllFree more) :
    AllFree (codes ++ more) :=
  List.forall_mem_append.mpr ⟨hcodes, hmore⟩

theorem AllFree.one {code : Code} (h : Free code) : AllFree [code] := .cons h .nil

theorem free_line {text : String} (h : Ends text.toList false) : Free (.line text) := by
  intro depth line hline
  rw [lines, List.mem_singleton] at hline
  rw [hline]
  exact (ends_indented h depth).nonNumeral_eq

theorem free_block {head : String} {body : List Code} (hhead : Ends head.toList false)
    (hbody : AllFree body) : Free (.block head body) := by
  have hopen : Parts (head ++ " \x7b").toList false :=
    hhead.text_parts rfl (parts_written rfl)
  have hclose : Parts "\x7d".toList false := parts_written rfl
  intro depth line hline
  rw [lines, List.mem_cons, List.mem_append, mem_linesAll, List.mem_singleton] at hline
  rcases hline with rfl | ⟨code, hcode, hline⟩ | rfl
  · exact (ends_indented hopen.ends depth).nonNumeral_eq
  · exact hbody code hcode (depth + 1) line hline
  · exact (ends_indented hclose.ends depth).nonNumeral_eq

end Source.Code

open Source.Code

namespace ScoringUnit

theorem ends_constantName (node : Nat) : Ends (constantName node).toList false :=
  ends_numbered (by decide) (by decide) node

theorem ends_methodName (node : Nat) : Ends (methodName node).toList false :=
  ends_numbered (by decide) (by decide) node

theorem ends_call (node : Nat) : Ends (call node).toList false :=
  ((ends_methodName node).text_parts rfl (parts_written rfl)).ends

theorem ends_replyText (reply : Reply) : Ends (replyText reply).toList false := by
  cases reply with
  | none => exact ends_written rfl
  | some node => exact ends_constantName node

theorem free_returnLine {expression : String} (h : Ends expression.toList false) :
    Free (returnLine expression) := by
  have hreturn : Parts "return ".toList false := parts_written rfl
  exact free_line ((hreturn.text_ends h).text_parts rfl (parts_written rfl)).ends

theorem free_reactionCode (reaction : Reaction) : Free (reactionCode reaction) := by
  cases reaction with
  | reply reply => exact free_returnLine (ends_replyText reply)
  | descend node => exact free_returnLine (ends_call node)

theorem free_guardCode {c : Condition} (h : c.Finite) : Free (guardCode c) := by
  have hsource := c.ends_source
  rw [anyNonFinite_eq_false h] at hsource
  have hif : Parts "if (!isTrue(".toList false := parts_written rfl
  exact free_block ((hif.text_ends hsource).text_parts rfl (parts_written rfl)).ends
    (.one (free_returnLine (ends_replyText none)))

theorem free_stepCode {step : UnitStep} (h : step.condition.Finite) :
    AllFree (stepCode step) := by
  have hsource := step.condition.ends_source
  rw [anyNonFinite_eq_false h] at hsource
  have hmatched : Parts "matched = ".toList false := parts_written rfl
  have htest : Free (.line ("matched = " ++ step.condition.source ++ ";")) :=
    free_line ((hmatched.text_ends hsource).text_parts rfl (parts_written rfl)).ends
  have hchild : Free (.block "if (isTrue(matched))" [returnLine (call step.child)]) :=
    free_block (ends_written rfl) (.one (free_returnLine (ends_call step.child)))
  have hunknown : AllFree (step.onUnknown.toList.map fun reaction =>
      .block "if (matched == null)" [reactionCode reaction]) := by
    intro code hcode
    obtain ⟨reaction, -, rfl⟩ := List.mem_map.mp hcode
    exact free_block (ends_written rfl) (.one (free_reactionCode reaction))
  exact .append (.cons htest (.one hchild)) hunknown

/-- The lines of a method are free of the two words if its conditions have finite numbers only. -/
theorem free_methodCode {method : UnitMethod} (h : ∀ c ∈ method.body.conditions, c.Finite) :
    Free (methodCode method) := by
  have hhead : Ends ("private Outcome " ++ methodName method.node ++ parameter).toList false := by
    have houtcome : Parts "private Outcome ".toList false := parts_written rfl
    exact ((houtcome.text_ends (ends_methodName method.node)).text_parts rfl
      (parts_written rfl)).ends
  refine free_block hhead ?_
  cases hbody : method.body with
  | leaf reply => exact .one (free_returnLine (ends_replyText reply))
  | choice steps fallback =>
    have hsteps : AllFree (steps.flatMap stepCode) := by
      intro code hcode
      obtain ⟨step, hstep, hcode⟩ := List.mem_flatMap.mp hcode
      rw [hbody] at h
      exact free_stepCode (h step.condition (List.mem_map_of_mem hstep)) code hcode
    exact .cons (free_line (ends_written rfl))
      (.append hsteps (.one (free_returnLine (ends_replyText fallback))))

theorem free_evaluateCode {unit : ScoringUnit}
    (h : ∀ c ∈ unit.guards ++ unit.rootCondition.toList, c.Finite) : Free unit.evaluateCode := by
  have hhead : Ends ("public Outcome evaluate" ++ parameter).toList false := by
    have houtcome : Ends "public Outcome evaluate".toList false := ends_written rfl
    exact (houtcome.text_parts rfl (parts_written rfl)).ends
  have hguards : ∀ conditions : List Condition, (∀ c ∈ conditions, c.Finite) →
      AllFree (conditions.map guardCode) := by
    intro conditions hfinite code hcode
    obtain ⟨c, hc, rfl⟩ := List.mem_map.mp hcode
    exact free_guardCode (hfinite c hc)
  obtain ⟨hfinite, hroot⟩ := List.forall_mem_append.mp h
  exact free_block hhead (.append (.append (hguards _ hfinite) (hguards _ hroot))
    (.one (free_returnLine (ends_call unit.root))))

theorem parts_arrayText {type : String} {items : List (String × Bool)}
    (htype : Ends type.toList false) (h : ∀ item ∈ items, Ends item.1.toList item.2) :
    Parts (arrayText type (items.map (·.1))).toList (items.any (·.2)) := by
  have hnew : Parts "new ".toList false := parts_written rfl
  have hopen : Parts "[] \x7b".toList false := parts_written rfl
  have hclose : Parts "\x7d".toList false := parts_written rfl
  have hall := (((hnew.text_ends htype).text_parts rfl hopen).text_ends
    (ends_intercalate h)).text_parts rfl hclose
  simpa [arrayText] using hall

theorem parts_labels (confidences : List (String × Float)) :
    Parts (arrayText "String" (confidences.map fun c => stringLiteral c.1)).toList false := by
  have htype : Ends "String".toList false := ends_written rfl
  have hitems : ∀ item ∈ confidences.map fun c => (stringLiteral c.1, false),
      Ends item.1.toList item.2 := by
    intro item hitem
    obtain ⟨c, -, rfl⟩ := List.mem_map.mp hitem
    exact (parts_ofList (parts_stringLiteralChars c.1.toList)).ends
  have hnone : (confidences.map fun c => (stringLiteral c.1, false)).any (·.2) = false := by
    rw [List.any_map]
    exact List.any_eq_false.mpr fun _ _ => Bool.false_ne_true
  have harray := parts_arrayText htype hitems
  rw [List.map_map, hnone] at harray
  exact harray

theorem parts_shares (confidences : List (String × Float)) :
    Parts (arrayText "double" (confidences.map fun c => doubleLiteral c.2)).toList
      (anyNonFinite (confidences.map (·.2))) := by
  have htype : Ends "double".toList false := ends_written rfl
  have hitems : ∀ item ∈ confidences.map fun c => (doubleLiteral c.2, !Number.isFinite c.2),
      Ends item.1.toList item.2 := by
    intro item hitem
    obtain ⟨c, -, rfl⟩ := List.mem_map.mp hitem
    rw [doubleLiteral, Number.floatText, String.toList_ofList]
    exact ends_floatChars c.2
  have harray := parts_arrayText htype hitems
  rw [List.map_map, List.any_map] at harray
  rw [anyNonFinite, List.any_map]
  exact harray

theorem ends_outcomeArguments (outcome : Outcome) :
    Ends (outcomeArguments outcome).toList
      (anyNonFinite (outcome.score.numbers ++ outcome.confidences.map (·.2))) := by
  have hitems : ∀ item ∈ [(stringLiteral outcome.nodeId, false),
      (outcome.score.source, anyNonFinite outcome.score.numbers),
      (arrayText "String" (outcome.confidences.map fun c => stringLiteral c.1), false),
      (arrayText "double" (outcome.confidences.map fun c => doubleLiteral c.2),
        anyNonFinite (outcome.confidences.map (·.2)))], Ends item.1.toList item.2 := by
    simp only [List.forall_mem_cons, List.not_mem_nil, false_implies, implies_true, and_true]
    exact ⟨(parts_ofList (parts_stringLiteralChars outcome.nodeId.toList)).ends,
      outcome.score.ends_source, (parts_labels outcome.confidences).ends,
      (parts_shares outcome.confidences).ends⟩
  have h := ends_intercalate hitems
  simp only [List.any_cons, List.any_nil, Bool.false_or, Bool.or_false] at h
  rw [anyNonFinite_append]
  exact h

/-- The line of an outcome has one of the two words exactly if its score or one of its confidences
is not finite. -/
theorem nonNumeral_outcomeCode (outcome : Outcome) {depth : Nat} {line : String}
    (hline : line ∈ (outcomeCode outcome).lines depth) :
    nonNumeral line =
      anyNonFinite (outcome.score.numbers ++ outcome.confidences.map (·.2)) := by
  have hprivate : Parts "private static final Outcome ".toList false := parts_written rfl
  have hnew : Parts " = new Outcome(".toList false := parts_written rfl
  have hclose : Parts ");".toList false := parts_written rfl
  have htext := (((hprivate.text_ends (ends_constantName outcome.node)).text_parts rfl
    hnew).text_ends (ends_outcomeArguments outcome)).text_parts rfl hclose
  rw [Bool.false_or, Bool.false_or, Bool.false_or, Bool.or_false] at htext
  rw [outcomeCode, Source.Code.lines, List.mem_singleton] at hline
  rw [hline]
  exact (ends_indented htext.ends depth).nonNumeral_eq

end ScoringUnit

/-! ## What all units share -/

namespace Source

theorem free_blank : Free .blank := by
  intro depth line hline
  rw [Code.lines, List.mem_singleton] at hline
  rw [hline]
  exact (ends_written rfl).nonNumeral_eq

theorem free_pair {head second : String} {body other : List Code}
    (hhead : Ends head.toList false) (hbody : AllFree body)
    (hsecond : Ends second.toList false) (hother : AllFree other) :
    Free (.pair head body second other) := by
  have hopen : Parts (head ++ " \x7b").toList false :=
    hhead.text_parts rfl (parts_written rfl)
  have hbetween : Parts ("\x7d " ++ second ++ " \x7b").toList false := by
    have hclose : Parts "\x7d ".toList false := parts_written rfl
    exact (hclose.text_ends hsecond).text_parts rfl (parts_written rfl)
  have hclose : Parts "\x7d".toList false := parts_written rfl
  intro depth line hline
  simp only [Code.lines, List.mem_cons, List.mem_append, mem_linesAll, List.not_mem_nil,
    or_false] at hline
  rcases hline with rfl | ⟨code, hcode, hline⟩ | rfl | ⟨code, hcode, hline⟩ | rfl
  · exact (ends_indented hopen.ends depth).nonNumeral_eq
  · exact hbody code hcode (depth + 1) line hline
  · exact (ends_indented hbetween.ends depth).nonNumeral_eq
  · exact hother code hcode (depth + 1) line hline
  · exact (ends_indented hclose.ends depth).nonNumeral_eq

/-- A line that is written out. -/
theorem free_written {cs : List Char} (h : decide (Ends cs false) = true) :
    Free (.line (String.ofList cs)) :=
  free_line (ends_written h)

/-- A block with a line that is written out. -/
theorem free_test {cs ds : List Char} (hhead : decide (Ends cs false) = true)
    (hline : decide (Ends ds false) = true) :
    Free (.block (String.ofList cs) [.line (String.ofList ds)]) :=
  free_block (ends_written hhead) (.one (free_written hline))

section Families

variable {type name member literalType test signature : String} {body : List Code}

theorem free_helper (hsignature : Ends signature.toList false) (hbody : AllFree body) :
    Free (helper signature body) := by
  have hprivate : Parts "private static ".toList false := parts_written rfl
  exact free_block (hprivate.text_ends hsignature) hbody

theorem free_readingHelper (hname : Ends name.toList false) (hbody : AllFree body) :
    Free (readingHelper name body) :=
  free_helper (hname.text_parts rfl (parts_written rfl)).ends hbody

theorem free_connectiveHelper (hname : Ends name.toList false) (hbody : AllFree body) :
    Free (connectiveHelper name body) := by
  have hboolean : Parts "Boolean ".toList false := parts_written rfl
  exact free_helper ((hboolean.text_ends hname).text_parts rfl (parts_written rfl)).ends
    hbody

theorem free_getter (htype : Ends type.toList false) (hname : Ends name.toList false)
    (hmember : Ends member.toList false) : Free (getter type name member) := by
  have hpublic : Parts "public ".toList false := parts_written rfl
  have hblank : Parts " ".toList false := parts_written rfl
  have hhead := ((hpublic.text_ends htype).text_parts rfl hblank).text_ends hname
  exact free_block (hhead.text_parts rfl (parts_written rfl)).ends
    (.one (ScoringUnit.free_returnLine hmember))

theorem free_comparisonHelper (hname : Ends name.toList false) (htype : Ends type.toList false)
    (hliteral : Ends literalType.toList false) (htest : Ends test.toList false) :
    Free (comparisonHelper name type literalType test) := by
  have hboolean : Parts "Boolean ".toList false := parts_written rfl
  have hopen : Parts "(".toList false := parts_written rfl
  have hvalue : Parts " value, ".toList false := parts_written rfl
  have hnull : Parts "return value == null ? null : ".toList false := parts_written rfl
  have hparameter := ((hboolean.text_ends hname).text_parts rfl hopen).text_ends htype
  have hsignature := (hparameter.text_parts rfl hvalue).text_ends hliteral
  exact free_helper (hsignature.text_parts rfl (parts_written rfl)).ends
    (.one (free_line ((hnull.text_ends htest).text_parts rfl (parts_written rfl)).ends))

theorem free_equalityHelpers {symbol negation : String} (hname : Ends name.toList false)
    (hsymbol : Parts symbol.toList false) (hnegation : Parts negation.toList false) :
    AllFree (equalityHelpers name symbol negation) := by
  have hvalue : Parts "value ".toList false := parts_written rfl
  have hliteral : Ends " literal".toList false := ends_written rfl
  have htest : Ends ("value " ++ symbol ++ " literal").toList false :=
    (hvalue.text_parts hsymbol).text_ends hliteral
  have hequals : Ends (negation ++ "value.equals(literal)").toList false :=
    hnegation.text_ends (ends_written rfl)
  refine .cons ?_ (.cons ?_ (.one ?_))
  · exact free_comparisonHelper hname (ends_written rfl) (ends_written rfl) htest
  · exact free_comparisonHelper hname (ends_written rfl) (ends_written rfl) hequals
  · exact free_comparisonHelper hname (ends_written rfl) (ends_written rfl) htest

theorem free_orderHelpers {symbol : String} (hname : Ends name.toList false)
    (hsymbol : Parts symbol.toList false) : AllFree (orderHelpers name symbol) := by
  have hvalue : Parts "value ".toList false := parts_written rfl
  have hcompare : Parts "value.compareTo(literal) ".toList false := parts_written rfl
  have htest : Ends ("value " ++ symbol ++ " literal").toList false :=
    (hvalue.text_parts hsymbol).text_ends (ends_written rfl)
  have horder : Ends ("value.compareTo(literal) " ++ symbol ++ " 0").toList false :=
    (hcompare.text_parts hsymbol).text_ends (ends_written rfl)
  refine .cons ?_ (.one ?_)
  · exact free_comparisonHelper hname (ends_written rfl) (ends_written rfl) htest
  · exact free_comparisonHelper hname (ends_written rfl) (ends_written rfl) horder

theorem free_unknownIfAbsent : Free unknownIfAbsent := free_test rfl rfl

/-- The head of a helper that takes any number of literals. -/
theorem ends_manyLiterals {cs : List Char} (hcs : Parts cs false) (htype : Ends type.toList false)
    (hliteral : Ends literalType.toList false) :
    Ends (String.ofList cs ++ type ++ " value, " ++ literalType ++ "... literals)").toList
      false := by
  have hvalue : Parts " value, ".toList false := parts_written rfl
  have hfirst := ((parts_ofList hcs).text_ends htype).text_parts rfl hvalue
  exact ((hfirst.text_ends hliteral).text_parts rfl (parts_written rfl)).ends

theorem free_searchHelper (htype : Ends type.toList false)
    (hliteral : Ends literalType.toList false) : Free (searchHelper type literalType) := by
  have hfor : Parts "for (".toList false := parts_written rfl
  have hloop : Parts ("for (" ++ literalType ++ " literal : literals)").toList false :=
    (hfor.text_ends hliteral).text_parts rfl (parts_written rfl)
  refine free_helper (ends_manyLiterals (by decide) htype hliteral) (.cons free_unknownIfAbsent ?_)
  exact .cons (free_block hloop.ends (.one (free_test rfl rfl)))
    (.one (free_written rfl))

theorem free_exclusionHelper (htype : Ends type.toList false)
    (hliteral : Ends literalType.toList false) : Free (exclusionHelper type literalType) :=
  free_helper (ends_manyLiterals (by decide) htype hliteral)
    (.cons (free_written rfl) (.one (free_written rfl)))

theorem free_decidedHelper {deciding other : String} (hname : Ends name.toList false)
    (hdeciding : Ends deciding.toList false) (hother : Ends other.toList false) :
    Free (decidedHelper name deciding other) := by
  have hresult : Parts "Boolean result = Boolean.".toList false := parts_written rfl
  have hif : Parts "if (Boolean.".toList false := parts_written rfl
  have hreturn : Parts "return Boolean.".toList false := parts_written rfl
  have hinitial : Parts ("Boolean result = Boolean." ++ other ++ ";").toList false :=
    (hresult.text_ends hother).text_parts rfl (parts_written rfl)
  have htest : Parts ("if (Boolean." ++ deciding ++ ".equals(operand))").toList false :=
    (hif.text_ends hdeciding).text_parts rfl (parts_written rfl)
  have hdecided : Parts ("return Boolean." ++ deciding ++ ";").toList false :=
    (hreturn.text_ends hdeciding).text_parts rfl (parts_written rfl)
  refine free_connectiveHelper hname (.cons (free_line hinitial.ends) (.cons ?_ ?_))
  · exact free_block (ends_written rfl)
      (.cons (free_block htest.ends (.one (free_line hdecided.ends)))
        (.one (free_test rfl rfl)))
  · exact .one (free_written rfl)

end Families

theorem free_outcomeClass : Free outcomeClass := by
  have hconstructor : Free
      (.block "Outcome(String nodeId, Object score, String[] labels, double[] values)" [
        .line "this.nodeId = nodeId;",
        .line "this.score = score;",
        .line "Map<String, Double> byLabel = new LinkedHashMap<>();",
        .block "for (int i = 0; i < labels.length; i++)" [
          .line "byLabel.put(labels[i], values[i]);"],
        .line "this.confidences = Collections.unmodifiableMap(byLabel);"]) :=
    free_block (ends_written rfl)
      (.cons (free_written rfl) (.cons (free_written rfl)
        (.cons (free_written rfl) (.cons (free_test rfl rfl)
          (.one (free_written rfl))))))
  have hnodeId : Free (getter "String" "getNodeId" "nodeId") :=
    free_getter (ends_written rfl) (ends_written rfl) (ends_written rfl)
  have hscore : Free (getter "Object" "getScore" "score") :=
    free_getter (ends_written rfl) (ends_written rfl) (ends_written rfl)
  have hconfidences : Free (getter "Map<String, Double>" "getConfidences" "confidences") :=
    free_getter (ends_written rfl) (ends_written rfl) (ends_written rfl)
  refine free_block (ends_written rfl) (.cons (free_written rfl)
    (.cons (free_written rfl) (.cons (free_written rfl) ?_)))
  exact .cons free_blank (.cons hconstructor (.cons free_blank (.cons hnodeId
    (.cons free_blank (.cons hscore (.cons free_blank (.one hconfidences)))))))

theorem free_fetch : Free fetch := free_written rfl

theorem free_numberHelper : Free numberHelper := by
  have htry : Free (.pair "try" [.line "return Double.valueOf(((String) value).trim());"]
      "catch (NumberFormatException e)" [.line "return null;"]) :=
    free_pair (ends_written rfl) (.one (free_written rfl))
      (ends_written rfl) (.one (free_written rfl))
  exact free_readingHelper (ends_written rfl) (.cons free_fetch
    (.cons (free_test rfl rfl)
      (.cons (free_block (ends_written rfl) (.one htry)) (.one (free_written rfl)))))

theorem free_flagHelper : Free flagHelper := by
  have htext : AllFree [.line "String raw = ((String) value).trim();",
      .block "if (raw.equalsIgnoreCase(\"true\"))" [.line "return Boolean.TRUE;"],
      .block "if (raw.equalsIgnoreCase(\"false\"))" [.line "return Boolean.FALSE;"]] :=
    .cons (free_written rfl) (.cons (free_test rfl rfl)
      (.one (free_test rfl rfl)))
  exact free_readingHelper (ends_written rfl) (.cons free_fetch
    (.cons (free_test rfl rfl)
      (.cons (free_block (ends_written rfl) htext) (.one (free_written rfl)))))

theorem free_readers :
    AllFree ([isTrueHelper, numberHelper, textHelper, flagHelper] ++ presenceHelpers) := by
  have hisTrue : Free isTrueHelper :=
    free_helper (ends_written rfl) (.one (free_written rfl))
  have htext : Free textHelper := free_readingHelper (ends_written rfl)
    (.cons free_fetch (.one (free_written rfl)))
  have hpresence : AllFree presenceHelpers :=
    .cons (free_readingHelper (ends_written rfl) (.one (free_written rfl)))
      (.one (free_readingHelper (ends_written rfl) (.one (free_written rfl))))
  exact .append (.cons hisTrue (.cons free_numberHelper (.cons htext (.one free_flagHelper))))
    hpresence

theorem free_parityHelper : Free parityHelper := by
  have hloop : Free (.block "for (Boolean operand : operands)" [
      .block "if (operand == null)" [.line "return null;"], .line "parity ^= operand;"]) :=
    free_block (ends_written rfl) (.cons (free_test rfl rfl)
      (.one (free_written rfl)))
  exact free_connectiveHelper (ends_written rfl) (.cons (free_written rfl)
    (.cons hloop (.one (free_written rfl))))

theorem free_surrogateHelper : Free surrogateHelper := by
  have hloop : Free (.block "for (Boolean operand : operands)" [
      .block "if (operand != null)" [.line "return operand;"]]) :=
    free_block (ends_written rfl) (.one (free_test rfl rfl))
  exact free_connectiveHelper (ends_written rfl) (.cons hloop
    (.one (free_written rfl)))

theorem free_comparisons :
    AllFree (equalityHelpers "eq" "==" "" ++ equalityHelpers "ne" "!=" "!" ++
      orderHelpers "lt" "<" ++ orderHelpers "le" "<=" ++
      orderHelpers "gt" ">" ++ orderHelpers "ge" ">=") := by
  have heq : AllFree (equalityHelpers "eq" "==" "") := free_equalityHelpers
    (ends_written rfl) (parts_written rfl) (parts_written rfl)
  have hne : AllFree (equalityHelpers "ne" "!=" "!") := free_equalityHelpers
    (ends_written rfl) (parts_written rfl) (parts_written rfl)
  have hlt : AllFree (orderHelpers "lt" "<") :=
    free_orderHelpers (ends_written rfl) (parts_written rfl)
  have hle : AllFree (orderHelpers "le" "<=") :=
    free_orderHelpers (ends_written rfl) (parts_written rfl)
  have hgt : AllFree (orderHelpers "gt" ">") :=
    free_orderHelpers (ends_written rfl) (parts_written rfl)
  have hge : AllFree (orderHelpers "ge" ">=") :=
    free_orderHelpers (ends_written rfl) (parts_written rfl)
  exact ((((heq.append hne).append hlt).append hle).append hgt).append hge

theorem free_searches :
    AllFree [searchHelper "Double" "double", textSearchHelper, searchHelper "Boolean" "boolean",
      exclusionHelper "Double" "double", exclusionHelper "String" "String",
      exclusionHelper "Boolean" "boolean"] := by
  have htext : Free textSearchHelper := free_helper (ends_written rfl)
    (.cons free_unknownIfAbsent (.one (free_written rfl)))
  have hnumber : Ends "Double".toList false := ends_written rfl
  have hnumbers : Ends "double".toList false := ends_written rfl
  have hflag : Ends "Boolean".toList false := ends_written rfl
  have hflags : Ends "boolean".toList false := ends_written rfl
  have hstring : Ends "String".toList false := ends_written rfl
  exact .cons (free_searchHelper hnumber hnumbers) (.cons htext
    (.cons (free_searchHelper hflag hflags) (.cons (free_exclusionHelper hnumber hnumbers)
      (.cons (free_exclusionHelper hstring hstring) (.one (free_exclusionHelper hflag hflags))))))

theorem free_connectives :
    AllFree [decidedHelper "and" "FALSE" "TRUE", decidedHelper "or" "TRUE" "FALSE",
      parityHelper, surrogateHelper] := by
  have htrue : Ends "TRUE".toList false := ends_written rfl
  have hfalse : Ends "FALSE".toList false := ends_written rfl
  exact .cons (free_decidedHelper (ends_written rfl) hfalse htrue)
    (.cons (free_decidedHelper (ends_written rfl) htrue hfalse)
      (.cons free_parityHelper (.one free_surrogateHelper)))

/-- What all units share is free of the two words. -/
theorem free_support : AllFree (outcomeClass :: helpers) := by
  have happend := (free_readers.append free_comparisons).append
    (free_searches.append free_connectives)
  refine .cons free_outcomeClass ?_
  simpa only [helpers, List.append_assoc, List.cons_append, List.nil_append] using happend

end Source

end ScoringTree
