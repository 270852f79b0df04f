import ScoringTree.Proofs.ConditionReading
import ScoringTree.Proofs.HeaderComment

/-!
# ScoringTree.Proofs.UnitLines

What can be read off the lines of a generated unit, by readers that know nothing of how the unit was
made.

A member of the class stands at the first level, so its first line begins with four blanks and its
last is a brace behind four blanks; all that is inside it stands deeper (`Code.Deep`).

* `Source.declaredConstant?`, `Source.declaredMethod?`
                        — the constant or the method that a line declares.
* `Source.methodBodies` — the methods with the lines of their bodies.
* `Source.returned?`    — the expression that a line returns.
* `Source.entries`      — where each test of a body leads when it is true.
* `ScoringUnit.text_eq_lines`
                        — the text of a unit is made of these lines.
* `ScoringUnit.methodBodies_scoringLines`, `ScoringUnit.filterMap_declaredConstant?`
                        — what the readers find in them.
-/

namespace ScoringTree

namespace Source

/-! ## Reading lines -/

/-- The characters before the first one of a kind, as a word. -/
def word (stop : Char) (cs : List Char) : String := String.ofList (cs.takeWhile (· != stop))

/-- The constant that a member of a class declares. -/
def declaredConstant? (line : String) : Option String :=
  (line.toList.dropPrefix? "    private static final Outcome ".toList).map (word ' ')

/-- The method that a member of a class declares, if it answers with an outcome. -/
def declaredMethod? (line : String) : Option String :=
  ((line.toList.dropPrefix? "    public Outcome ".toList).or
    (line.toList.dropPrefix? "    private Outcome ".toList)).map (word '(')

/-- The methods of a class with the lines of their bodies. -/
def methodBodies : List String → List (String × List String)
  | [] => []
  | line :: rest =>
    match declaredMethod? line with
    | some name => (name, rest.takeWhile (· != "    \x7d")) :: methodBodies rest
    | none => methodBodies rest

/-- A line without the blanks it begins with. -/
def unindented (line : String) : List Char := line.toList.dropWhile (· == ' ')

/-- The expression that a line returns. -/
def returned? (line : String) : Option String :=
  ((unindented line).dropPrefix? "return ".toList).map (word ';')

/-- What the lines behind a test return when it is true. -/
def entered? : List String → Option String
  | guard :: entry :: _ =>
    if unindented guard = "if (isTrue(matched)) \x7b".toList then returned? entry else none
  | _ => none

/-- Where each test among the lines of a body leads when it is true. -/
def entries : List String → List (Option String)
  | [] => []
  | line :: rest =>
    if ((unindented line).dropPrefix? "matched = ".toList).isSome then
      entered? rest :: entries rest
    else entries rest

theorem names_methodBodies (lines : List String) :
    (methodBodies lines).map (·.1) = lines.filterMap declaredMethod? := by
  induction lines with
  | nil => rfl
  | cons line rest ih =>
    rw [methodBodies]
    cases hmethod : declaredMethod? line with
    | none =>
      rw [List.filterMap_cons_none hmethod]
      exact ih
    | some name => rw [List.filterMap_cons_some hmethod, List.map_cons, ih]

theorem methodBodies_append {lines : List String} (h : ∀ line ∈ lines, declaredMethod? line = none)
    (rest : List String) : methodBodies (lines ++ rest) = methodBodies rest := by
  induction lines with
  | nil => rfl
  | cons line lines ih =>
    obtain ⟨hline, hlines⟩ := List.forall_mem_cons.mp h
    rw [List.cons_append, methodBodies, hline]
    exact ih hlines

theorem word_append {stop : Char} {name : String} (h : stop ∉ name.toList) (rest : List Char) :
    word stop (name.toList ++ stop :: rest) = name := by
  have hall : ∀ c ∈ name.toList, (c != stop) = true := by
    intro c hc
    rw [bne_iff_ne]
    rintro rfl
    exact h hc
  rw [word, List.takeWhile_append_of_pos hall, List.takeWhile_cons_of_neg (by simp),
    List.append_nil, String.ofList_toList]

theorem dropPrefix?_append (beginning rest : List Char) :
    (beginning ++ rest).dropPrefix? beginning = some rest :=
  List.dropPrefix?_append_of_beq rest (beq_self_eq_true beginning)

theorem dropPrefix?_append_append (beginning cs ds : List Char) :
    (beginning ++ cs).dropPrefix? (beginning ++ ds) = cs.dropPrefix? ds := by
  induction beginning with
  | nil => rfl
  | cons c beginning ih =>
    rw [List.cons_append, List.cons_append, List.dropPrefix?, if_pos (beq_self_eq_true c), ih]

/-- A text begins with a character. -/
def Opens (text : String) (c : Char) : Prop := text.toList.head? = some c

theorem Opens.append {text : String} {c : Char} (h : Opens text c) (more : String) :
    Opens (text ++ more) c := by
  rw [Opens, String.toList_append, List.head?_append, h]
  rfl

theorem Opens.dropPrefix? {text beginning : String} {b c : Char} (htext : Opens text c)
    (hbeginning : Opens beginning b) (h : c ≠ b) (more : List Char) :
    (text.toList ++ more).dropPrefix? beginning.toList = none := by
  obtain ⟨cs, hcs⟩ := List.head?_eq_some_iff.mp htext
  obtain ⟨bs, hbs⟩ := List.head?_eq_some_iff.mp hbeginning
  rw [hcs, hbs, List.cons_append, List.dropPrefix?, if_neg (by simpa using h)]

namespace Code

/-! ## Lines inside members -/

theorem indented_one (text : String) :
    (indented 1 text).toList = ' ' :: ' ' :: ' ' :: ' ' :: text.toList := by
  rw [indented, String.toList_append, String.toList_ofList]
  rfl

/-- A line that is empty or moved in by that many levels at least. -/
def Deep (depth : Nat) (line : String) : Prop :=
  line = "" ∨ ∃ cs, line.toList = List.replicate (4 * depth) ' ' ++ cs

theorem deep_indented (depth : Nat) (text : String) : Deep depth (indented depth text) := by
  refine Or.inr ⟨text.toList, ?_⟩
  rw [indented, String.toList_append, String.toList_ofList]

theorem Deep.weaken {depth : Nat} {line : String} (h : Deep (depth + 1) line) :
    Deep depth line := by
  rcases h with h | ⟨cs, h⟩
  · exact Or.inl h
  · refine Or.inr ⟨List.replicate 4 ' ' ++ cs, ?_⟩
    rw [h, Nat.mul_add, List.replicate_add, List.append_assoc]

mutual

theorem deep_lines {depth : Nat} {line : String} :
    ∀ code : Code, line ∈ lines depth code → Deep depth line
  | .blank, h => by
    rw [lines, List.mem_singleton] at h
    exact Or.inl h
  | .line text, h => by
    rw [lines, List.mem_singleton] at h
    rw [h]
    exact deep_indented depth text
  | .block head body, h => by
    rw [lines, List.mem_cons, List.mem_append, List.mem_singleton] at h
    rcases h with rfl | h | rfl
    · exact deep_indented depth _
    · exact (deep_linesAll body h).weaken
    · exact deep_indented depth _
  | .pair head body secondHead secondBody, h => by
    rw [lines, List.mem_cons, List.mem_append, List.mem_cons, List.mem_append,
      List.mem_singleton] at h
    rcases h with rfl | h | rfl | h | rfl
    · exact deep_indented depth _
    · exact (deep_linesAll body h).weaken
    · exact deep_indented depth _
    · exact (deep_linesAll secondBody h).weaken
    · exact deep_indented depth _

theorem deep_linesAll {depth : Nat} {line : String} :
    ∀ codes : List Code, line ∈ linesAll depth codes → Deep depth line
  | [], h => by
    rw [linesAll] at h
    cases h
  | code :: rest, h => by
    rw [linesAll, List.mem_append] at h
    rcases h with h | h
    · exact deep_lines code h
    · exact deep_linesAll rest h

end

/-- A line inside a member begins like no member. -/
theorem Deep.dropPrefix? {line : String} (h : Deep 2 line) {beginning : List Char} :
    line.toList.dropPrefix? (' ' :: ' ' :: ' ' :: ' ' :: 'p' :: beginning) = none := by
  rcases h with rfl | ⟨cs, h⟩
  · rfl
  · rw [h]
    rfl

/-- A reader of the first lines of members. -/
structure ReadsMembers (read? : String → Option String) : Prop where
  inside : ∀ line, Deep 2 line → read? line = none
  brace : read? "    \x7d" = none

theorem readsMembers_declaredConstant? : ReadsMembers declaredConstant? where
  inside line h := by
    rw [declaredConstant?, show "    private static final Outcome ".toList =
      ' ' :: ' ' :: ' ' :: ' ' :: 'p' :: "rivate static final Outcome ".toList from rfl,
      h.dropPrefix?]
    rfl
  brace := rfl

theorem readsMembers_declaredMethod? : ReadsMembers declaredMethod? where
  inside line h := by
    rw [declaredMethod?, show "    public Outcome ".toList =
      ' ' :: ' ' :: ' ' :: ' ' :: 'p' :: "ublic Outcome ".toList from rfl, h.dropPrefix?,
      show "    private Outcome ".toList =
      ' ' :: ' ' :: ' ' :: ' ' :: 'p' :: "rivate Outcome ".toList from rfl, h.dropPrefix?]
    rfl
  brace := rfl

/-! ## Members in a class -/

theorem mem_linesAll {depth : Nat} {codes : List Code} {line : String} :
    line ∈ linesAll depth codes ↔ ∃ code ∈ codes, line ∈ code.lines depth := by
  induction codes with
  | nil => simp [linesAll]
  | cons code rest ih => rw [linesAll, List.mem_append, ih, List.exists_mem_cons_iff]

theorem linesAll_singleton (depth : Nat) (code : Code) :
    linesAll depth [code] = code.lines depth := by
  rw [linesAll, linesAll, List.append_nil]

theorem filterMap_linesAll (read? : String → Option String) (depth : Nat) (codes : List Code) :
    (linesAll depth codes).filterMap read? =
      codes.flatMap fun code => (code.lines depth).filterMap read? := by
  induction codes with
  | nil => rfl
  | cons code rest ih => rw [linesAll, List.filterMap_append, ih, List.flatMap_cons]

theorem spaced_cons (first second : Code) (rest : List Code) :
    spaced (first :: second :: rest) = first :: .blank :: spaced (second :: rest) :=
  rfl

theorem mem_spaced {code : Code} : ∀ {codes : List Code}, code ∈ spaced codes →
    code = .blank ∨ code ∈ codes
  | [], h => by cases h
  | [_], h => Or.inr h
  | first :: second :: rest, h => by
    rw [spaced_cons] at h
    rcases List.mem_cons.mp h with rfl | h
    · exact Or.inr List.mem_cons_self
    · rcases List.mem_cons.mp h with rfl | h
      · exact Or.inl rfl
      · exact (mem_spaced h).imp_right (List.mem_cons_of_mem _)

/-- Blank lines make no difference to a reader that finds nothing in them. -/
theorem filterMap_spaced {read? : String → Option String} (hblank : read? "" = none) :
    ∀ codes : List Code, (linesAll 1 (spaced codes)).filterMap read? =
      codes.flatMap fun code => (lines 1 code).filterMap read?
  | [] => rfl
  | [code] => by
    rw [spaced, linesAll_singleton, List.flatMap_singleton]
  | first :: second :: rest => by
    have ih := filterMap_spaced hblank (second :: rest)
    rw [spaced_cons, linesAll, linesAll, lines, List.singleton_append, List.filterMap_append,
      List.filterMap_cons_none hblank, ih]
    rfl

theorem spaced_append {more : List Code} (hmore : more ≠ []) : ∀ {codes : List Code}, codes ≠ [] →
    spaced (codes ++ more) = spaced codes ++ .blank :: spaced more
  | [], h => absurd rfl h
  | [code], _ => by
    obtain ⟨second, rest, rfl⟩ := List.exists_cons_of_ne_nil hmore
    rfl
  | first :: second :: rest, _ => by
    have ih := spaced_append hmore (List.cons_ne_nil second rest)
    rw [spaced_cons, List.cons_append, List.cons_append, spaced_cons, ← List.cons_append, ih]
    rfl

section Members

variable {read? : String → Option String} (h : ReadsMembers read?)

include h

theorem ReadsMembers.filterMap_inside {lines : List String} (hdeep : ∀ line ∈ lines, Deep 2 line) :
    lines.filterMap read? = [] := by
  rw [List.filterMap_eq_nil_iff]
  exact fun line hline => h.inside line (hdeep line hline)

/-- Of a block, only the first line can be one that is read. -/
theorem ReadsMembers.filterMap_block (head : String) (body : List Code) :
    (lines 1 (.block head body)).filterMap read? =
      (read? (indented 1 (head ++ " \x7b"))).toList := by
  have hbody : (linesAll 2 body).filterMap read? = [] :=
    h.filterMap_inside fun _ hline => deep_linesAll body hline
  have hbrace : read? (indented 1 "\x7d") = none := h.brace
  rw [lines, List.filterMap_cons, List.filterMap_append, hbody, List.nil_append,
    List.filterMap_cons_none hbrace, List.filterMap_nil]
  cases read? (indented 1 (head ++ " \x7b")) <;> rfl

theorem ReadsMembers.blank : read? "" = none := h.inside "" (Or.inl rfl)

end Members

/-- A method is read with its whole body. -/
theorem methodBodies_block {head name : String}
    (hname : declaredMethod? (indented 1 (head ++ " \x7b")) = some name) (body : List Code)
    (rest : List String) :
    methodBodies (lines 1 (.block head body) ++ rest) =
      (name, linesAll 2 body) :: methodBodies rest := by
  have hinside : ∀ line ∈ linesAll 2 body, declaredMethod? line = none := fun line hline =>
    readsMembers_declaredMethod?.inside line (deep_linesAll body hline)
  have hbrace : indented 1 "\x7d" = "    \x7d" := rfl
  have hbody : ∀ line ∈ linesAll 2 body, (line != "    \x7d") = true := by
    intro line hline
    rw [bne_iff_ne]
    rintro rfl
    rcases deep_linesAll body hline with hempty | ⟨cs, hcs⟩
    · exact absurd hempty (by decide)
    · exact absurd (congrArg (fun l => l[4]?) hcs) (by simp)
  rw [lines, hbrace, List.cons_append, List.append_assoc, List.singleton_append,
    methodBodies, hname]
  dsimp only
  rw [methodBodies_append hinside, methodBodies, readsMembers_declaredMethod?.brace,
    List.takeWhile_append_of_pos hbody, List.takeWhile_cons_of_neg (by simp), List.append_nil]

/-- A member of a class: its head without the brace, the name it declares, and its body. -/
structure Member where
  head : String
  name : String
  body : List Code

def Member.code (member : Member) : Code := .block member.head member.body

/-- The methods of a class that has no other members than methods. -/
theorem methodBodies_spaced : ∀ {members : List Member},
    (∀ m ∈ members, declaredMethod? (indented 1 (m.head ++ " \x7b")) = some m.name) →
    methodBodies (linesAll 1 (spaced (members.map Member.code))) =
      members.map fun m => (m.name, linesAll 2 m.body)
  | [], _ => rfl
  | [m], hnames => by
    have hname := hnames m (List.mem_singleton_self m)
    rw [List.map_singleton, spaced, linesAll, linesAll, Member.code, methodBodies_block hname]
    rfl
  | first :: second :: rest, hnames => by
    obtain ⟨hfirst, hothers⟩ := List.forall_mem_cons.mp hnames
    have hblank : declaredMethod? "" = none := readsMembers_declaredMethod?.blank
    have ih := methodBodies_spaced hothers
    rw [List.map_cons] at ih
    rw [List.map_cons, List.map_cons, spaced_cons, linesAll, linesAll, lines,
      List.singleton_append, Member.code, methodBodies_block hfirst, methodBodies,
      hblank]
    dsimp only
    rw [ih]
    rfl

/-! ## Lines that return or test -/

theorem unindented_indented {text : String} {c : Char} (hc : Opens text c) (h : c ≠ ' ')
    (depth : Nat) : unindented (indented depth text) = text.toList := by
  obtain ⟨cs, hcs⟩ := List.head?_eq_some_iff.mp hc
  rw [unindented, indented, String.toList_append, String.toList_ofList, hcs]
  induction 4 * depth with
  | zero => exact List.dropWhile_cons_of_neg (by simpa using h)
  | succ n ih => simpa [List.replicate_succ] using ih

theorem returned?_return {expression : String} (h : ';' ∉ expression.toList) (depth : Nat) :
    returned? (indented depth ("return " ++ expression ++ ";")) = some expression := by
  have hopens : Opens "return " 'r' := rfl
  rw [returned?, unindented_indented ((hopens.append _).append _) (by decide),
    String.toList_append, String.toList_append, List.append_assoc, dropPrefix?_append,
    Option.map_some]
  exact congrArg some (word_append h [])

theorem returned?_otherwise {text : String} {c : Char} (hc : Opens text c) (hblank : c ≠ ' ')
    (h : c ≠ 'r') (depth : Nat) : returned? (indented depth text) = none := by
  have hnone := hc.dropPrefix? (show Opens "return " 'r' from rfl) h []
  rw [List.append_nil] at hnone
  rw [returned?, unindented_indented hc hblank, hnone]
  rfl

theorem entries_test (text : String) (depth : Nat) (rest : List String) :
    entries (indented depth ("matched = " ++ text) :: rest) = entered? rest :: entries rest := by
  have hopens : Opens "matched = " 'm' := rfl
  rw [entries, unindented_indented (hopens.append _) (by decide), String.toList_append,
    dropPrefix?_append]
  rfl

theorem entries_otherwise {text : String} {c : Char} (hc : Opens text c) (hblank : c ≠ ' ')
    (h : c ≠ 'm') (depth : Nat) (rest : List String) :
    entries (indented depth text :: rest) = entries rest := by
  have hnone := hc.dropPrefix? (show Opens "matched = " 'm' from rfl) h []
  rw [List.append_nil] at hnone
  rw [entries, unindented_indented hc hblank, hnone]
  rfl

end Code

/-- The lines behind the methods, which are the same in all units: the class of outcomes, the
helpers and the brace that ends the class. -/
def supportLines : List String :=
  "" :: (Code.linesAll 1 (Code.spaced (outcomeClass :: helpers)) ++ ["\x7d"])

end Source

namespace ScoringUnit

open Source Code

/-! ## The lines of a unit -/

/-- What stands before the class. -/
def preamble (unit : ScoringUnit) : List Code :=
  (if unit.package.isEmpty then [] else [.line ("package " ++ unit.package ++ ";"), .blank]) ++
    (unit.frame.imports.map fun name => .line ("import " ++ name ++ ";")) ++ .blank :: unit.comment

/-- The lines of the package, the imports, the comment and the head of the class. -/
def headingLines (unit : ScoringUnit) : List String :=
  linesAll 0 unit.preamble ++ [unit.classHead ++ " \x7b", ""]

def constantLines (unit : ScoringUnit) : List String := linesAll 1 (unit.outcomes.map outcomeCode)

/-- The lines of the constructor, with a blank line before and behind them. -/
def constructorLines (unit : ScoringUnit) : List String :=
  "" :: (linesAll 1 ((Text.lines unit.frame.constructor.print).map Code.line) ++ [""])

/-- The lines of the methods, the one that is called from outside first. -/
def scoringLines (unit : ScoringUnit) : List String :=
  linesAll 1 (spaced (unit.evaluateCode :: unit.methods.map methodCode))

/-- The lines of the class without its constructor. -/
def declaringLines (unit : ScoringUnit) : List String :=
  unit.constantLines ++ unit.scoringLines ++ supportLines

theorem code_eq (unit : ScoringUnit) :
    unit.code = unit.preamble ++ [.block unit.classHead unit.classBody] := by
  simp only [code, preamble, List.append_assoc, List.cons_append]

theorem linesAll_code (unit : ScoringUnit) :
    linesAll 0 unit.code = unit.headingLines ++ unit.constantLines ++ unit.constructorLines ++
      unit.scoringLines ++ supportLines := by
  have hmembers : unit.evaluateCode :: (unit.methods.map methodCode ++ outcomeClass :: helpers) =
      (unit.evaluateCode :: unit.methods.map methodCode) ++ outcomeClass :: helpers := rfl
  rw [code_eq, linesAll_append, linesAll, linesAll, lines, classBody, hmembers,
    spaced_append (List.cons_ne_nil _ _) (List.cons_ne_nil _ _)]
  simp only [linesAll, linesAll_append, lines, indented_zero, headingLines, constantLines,
    constructorLines, scoringLines, supportLines, List.append_assoc, List.cons_append,
    List.nil_append, List.append_nil, Nat.zero_add]

/-- The text of a unit, line by line. -/
theorem text_eq_lines (unit : ScoringUnit) :
    unit.text = String.join ((unit.headingLines ++ unit.constantLines ++ unit.constructorLines ++
      unit.scoringLines ++ supportLines).map (· ++ "\n")) := by
  rw [text, print, linesAll_code]

/-! ## Names -/

theorem not_mem_numbered {name : String} {c : Char} (hname : c ∉ name.toList)
    (hdigit : c.isDigit = false) (n : Nat) : c ∉ (name ++ toString n).toList := by
  rw [String.toList_append, List.mem_append, not_or]
  refine ⟨hname, ?_⟩
  rw [show (toString n : String) = String.ofList (Nat.toDigits 10 n) from rfl,
    String.toList_ofList]
  intro hc
  rw [Nat.isDigit_of_mem_toDigits (by decide) (by decide) hc] at hdigit
  cases hdigit

theorem declaredMethod?_methodName (node : Nat) :
    declaredMethod? (indented 1 ("private Outcome " ++ methodName node ++ parameter ++ " \x7b")) =
      some (methodName node) := by
  have hline : (indented 1 ("private Outcome " ++ methodName node ++ parameter ++ " \x7b")).toList =
      "    private Outcome ".toList ++ ((methodName node).toList ++
        '(' :: "Map<String, Object> requestData) \x7b".toList) := by
    rw [indented_one, String.toList_append, String.toList_append, String.toList_append,
      List.append_assoc, List.append_assoc]
    rfl
  have hname : '(' ∉ (methodName node).toList := not_mem_numbered (by decide) (by decide) node
  have hpublic : ∀ cs, List.dropPrefix? ("    private Outcome ".toList ++ cs)
      "    public Outcome ".toList = none := fun _ => rfl
  rw [declaredMethod?, hline, dropPrefix?_append, hpublic, Option.none_or, Option.map_some,
    word_append hname]

theorem declaredMethod?_evaluate :
    declaredMethod? (indented 1 ("public Outcome evaluate" ++ parameter ++ " \x7b")) =
      some "evaluate" :=
  rfl

theorem declaredConstant?_methodName (node : Nat) :
    declaredConstant? (indented 1 ("private Outcome " ++ methodName node ++ parameter ++ " \x7b")) =
      none := by
  rw [declaredConstant?, indented_one, String.toList_append, String.toList_append,
    String.toList_append, List.append_assoc, List.append_assoc]
  rfl

theorem declaredConstant?_evaluate :
    declaredConstant? (indented 1 ("public Outcome evaluate" ++ parameter ++ " \x7b")) = none :=
  rfl

/-- The line that declares a constant, and what is read off it. -/
theorem lines_outcomeCode (outcome : Outcome) :
    ∃ line, (outcomeCode outcome).lines 1 = [line] ∧
      declaredConstant? line = some (constantName outcome.node) ∧ declaredMethod? line = none := by
  refine ⟨_, by rw [outcomeCode, lines], ?_⟩
  have hname : ' ' ∉ (constantName outcome.node).toList :=
    not_mem_numbered (by decide) (by decide) outcome.node
  have hline : (indented 1 ("private static final Outcome " ++ constantName outcome.node ++
      " = new Outcome(" ++ outcomeArguments outcome ++ ");")).toList =
      "    private static final Outcome ".toList ++ ((constantName outcome.node).toList ++
        ' ' :: ("= new Outcome(" ++ outcomeArguments outcome ++ ");").toList) := by
    simp only [indented_one, String.toList_append, List.append_assoc]
    rfl
  refine ⟨?_, ?_⟩
  · rw [declaredConstant?, hline, dropPrefix?_append, Option.map_some, word_append hname]
  · rw [declaredMethod?, hline]
    rfl

/-! ## What all units share -/

/-- The head of a helper begins like that of a constant, and goes on otherwise. -/
theorem undeclared_helper {signature : String} {c : Char} (hc : Opens signature c) (h : c ≠ 'f') :
    declaredConstant? (indented 1 ("private static " ++ signature ++ " \x7b")) = none ∧
      declaredMethod? (indented 1 ("private static " ++ signature ++ " \x7b")) = none := by
  have hline : (indented 1 ("private static " ++ signature ++ " \x7b")).toList =
      "    private static ".toList ++ (signature.toList ++ " \x7b".toList) := by
    simp only [indented_one, String.toList_append, List.append_assoc]
    rfl
  have hconstant : "    private static final Outcome ".toList =
      "    private static ".toList ++ "final Outcome ".toList := rfl
  refine ⟨?_, ?_⟩
  · rw [declaredConstant?, hline, hconstant, dropPrefix?_append_append,
      hc.dropPrefix? (show Opens "final Outcome " 'f' from rfl) h]
    rfl
  · rw [declaredMethod?, hline]
    rfl

/-- No line of a member declares a constant or a method. -/
def Undeclaring (code : Code) : Prop :=
  (code.lines 1).filterMap declaredConstant? = [] ∧ (code.lines 1).filterMap declaredMethod? = []

theorem undeclaring_block {head : String} (body : List Code)
    (hconstant : declaredConstant? (indented 1 (head ++ " \x7b")) = none)
    (hmethod : declaredMethod? (indented 1 (head ++ " \x7b")) = none) :
    Undeclaring (.block head body) := by
  rw [Undeclaring, readsMembers_declaredConstant?.filterMap_block,
    readsMembers_declaredMethod?.filterMap_block, hconstant, hmethod]
  exact ⟨rfl, rfl⟩

theorem undeclaring_helper {signature : String} {c : Char} (hc : Opens signature c) (h : c ≠ 'f')
    (body : List Code) : Undeclaring (helper signature body) :=
  undeclaring_block body (undeclared_helper hc h).1 (undeclared_helper hc h).2

theorem undeclaring_outcomeClass : Undeclaring outcomeClass :=
  undeclaring_block _ rfl rfl

theorem undeclaring_helpers : ∀ code ∈ helpers, Undeclaring code := by
  have hboolean : Opens "Boolean " 'B' := rfl
  have hcomparison : ∀ name type literalType test,
      Undeclaring (comparisonHelper name type literalType test) := fun _ _ _ _ =>
    undeclaring_helper
      ((((((hboolean.append _).append _).append _).append _).append _).append _) (by decide) _
  have hconnective : ∀ name body, Undeclaring (connectiveHelper name body) := fun _ body =>
    undeclaring_helper ((hboolean.append _).append _) (by decide) body
  have hreading : ∀ {name : String} {c : Char}, Opens name c → c ≠ 'f' →
      ∀ body, Undeclaring (readingHelper name body) := fun hc h body =>
    undeclaring_helper (hc.append _) h body
  have hsearch : ∀ type literalType, Undeclaring (searchHelper type literalType) := fun _ _ =>
    undeclaring_helper
      ((((show Opens "Boolean isIn(" 'B' from rfl).append _).append _).append _ |>.append _)
      (by decide) _
  have hexclusion : ∀ type literalType, Undeclaring (exclusionHelper type literalType) := fun _ _ =>
    undeclaring_helper
      ((((show Opens "Boolean isNotIn(" 'B' from rfl).append _).append _).append _ |>.append _)
      (by decide) _
  have htrue : Undeclaring isTrueHelper :=
    undeclaring_helper (show Opens "boolean isTrue(Boolean value)" 'b' from rfl) (by decide) _
  have htext : Undeclaring textSearchHelper :=
    undeclaring_helper (show Opens "Boolean isIn(String value, String... literals)" 'B' from rfl)
      (by decide) _
  have hnumber : Undeclaring numberHelper :=
    hreading (show Opens "Double number" 'D' from rfl) (by decide) _
  have hstring : Undeclaring textHelper :=
    hreading (show Opens "String text" 'S' from rfl) (by decide) _
  have hflag : Undeclaring flagHelper :=
    hreading (show Opens "Boolean flag" 'B' from rfl) (by decide) _
  have hmissing : ∀ body, Undeclaring (readingHelper "boolean isMissing" body) :=
    hreading (show Opens "boolean isMissing" 'b' from rfl) (by decide)
  have hpresent : ∀ body, Undeclaring (readingHelper "boolean isNotMissing" body) :=
    hreading (show Opens "boolean isNotMissing" 'b' from rfl) (by decide)
  simp only [helpers, presenceHelpers, equalityHelpers, orderHelpers, decidedHelper, parityHelper,
    surrogateHelper, List.forall_mem_append, List.forall_mem_cons, htrue, hnumber, hstring, hflag,
    hmissing, hpresent, hcomparison, hsearch, htext, hexclusion, hconnective, List.not_mem_nil,
    false_imp_iff, implies_true, and_self]

/-- What all units share declares no constant and no method. -/
theorem filterMap_supportLines :
    supportLines.filterMap declaredConstant? = [] ∧
      supportLines.filterMap declaredMethod? = [] := by
  have hall : ∀ code ∈ outcomeClass :: helpers, Undeclaring code :=
    List.forall_mem_cons.mpr ⟨undeclaring_outcomeClass, undeclaring_helpers⟩
  have hread : ∀ {read? : String → Option String}, ReadsMembers read? → read? "\x7d" = none →
      (∀ code ∈ outcomeClass :: helpers, (code.lines 1).filterMap read? = []) →
      supportLines.filterMap read? = [] := by
    intro read? hreads hend hcodes
    rw [supportLines, List.filterMap_cons_none hreads.blank, List.filterMap_append,
      filterMap_spaced hreads.blank, List.flatMap_eq_nil_iff.mpr hcodes,
      List.nil_append, List.filterMap_cons_none hend, List.filterMap_nil]
  exact ⟨hread readsMembers_declaredConstant? rfl fun code hcode => (hall code hcode).1,
    hread readsMembers_declaredMethod? rfl fun code hcode => (hall code hcode).2⟩

/-! ## What a unit declares -/

/-- The body of the method that is called from outside. -/
def evaluateBody (unit : ScoringUnit) : List Code :=
  unit.guards.map guardCode ++ unit.rootCondition.toList.map guardCode ++
    [returnLine (call unit.root)]

/-- The methods of a unit as members of its class. -/
def members (unit : ScoringUnit) : List Member :=
  ⟨"public Outcome evaluate" ++ parameter, "evaluate", unit.evaluateBody⟩ ::
    unit.methods.map fun m =>
      ⟨"private Outcome " ++ methodName m.node ++ parameter, methodName m.node, bodyCode m.body⟩

theorem scoringLines_eq (unit : ScoringUnit) :
    unit.scoringLines = linesAll 1 (spaced (unit.members.map Member.code)) := by
  rw [scoringLines, members, List.map_cons, List.map_map]
  rfl

theorem declaredMethod?_member (unit : ScoringUnit) :
    ∀ m ∈ unit.members, declaredMethod? (indented 1 (m.head ++ " \x7b")) = some m.name := by
  refine List.forall_mem_cons.mpr ⟨declaredMethod?_evaluate, ?_⟩
  intro m hm
  obtain ⟨method, -, rfl⟩ := List.mem_map.mp hm
  exact declaredMethod?_methodName method.node

theorem declaredConstant?_member (unit : ScoringUnit) :
    ∀ m ∈ unit.members, declaredConstant? (indented 1 (m.head ++ " \x7b")) = none := by
  refine List.forall_mem_cons.mpr ⟨declaredConstant?_evaluate, ?_⟩
  intro m hm
  obtain ⟨method, -, rfl⟩ := List.mem_map.mp hm
  exact declaredConstant?_methodName method.node

/-- The methods that are read off the lines, with the lines of their bodies. -/
theorem methodBodies_scoringLines (unit : ScoringUnit) :
    methodBodies unit.scoringLines = ("evaluate", linesAll 2 unit.evaluateBody) ::
      unit.methods.map fun m => (methodName m.node, linesAll 2 (bodyCode m.body)) := by
  rw [scoringLines_eq, methodBodies_spaced unit.declaredMethod?_member, members, List.map_cons,
    List.map_map]
  rfl

/-- The methods that are declared. -/
theorem filterMap_declaredMethod? (unit : ScoringUnit) :
    unit.declaringLines.filterMap declaredMethod? =
      "evaluate" :: unit.methods.map fun m => methodName m.node := by
  have hconstants : unit.constantLines.filterMap declaredMethod? = [] := by
    rw [constantLines, filterMap_linesAll, List.flatMap_map, List.flatMap_eq_nil_iff]
    intro outcome _
    obtain ⟨line, hline, -, hmethod⟩ := lines_outcomeCode outcome
    rw [hline, List.filterMap_cons_none hmethod, List.filterMap_nil]
  rw [declaringLines, List.filterMap_append, List.filterMap_append, hconstants,
    filterMap_supportLines.2, List.nil_append, List.append_nil, ← names_methodBodies,
    methodBodies_scoringLines, List.map_cons, List.map_map]
  rfl

/-- The constants that are declared. -/
theorem filterMap_declaredConstant? (unit : ScoringUnit) :
    unit.declaringLines.filterMap declaredConstant? =
      unit.outcomes.map fun o => constantName o.node := by
  have hconstants : unit.constantLines.filterMap declaredConstant? =
      unit.outcomes.map fun o => constantName o.node := by
    rw [constantLines, filterMap_linesAll, List.flatMap_map, List.map_eq_flatMap]
    refine List.flatMap_congr fun outcome _ => ?_
    obtain ⟨line, hline, hconstant, -⟩ := lines_outcomeCode outcome
    rw [hline, List.filterMap_cons_some hconstant, List.filterMap_nil]
  have hscoring : unit.scoringLines.filterMap declaredConstant? = [] := by
    rw [scoringLines_eq, filterMap_spaced readsMembers_declaredConstant?.blank, List.flatMap_map,
      List.flatMap_eq_nil_iff]
    intro m hm
    rw [Member.code, readsMembers_declaredConstant?.filterMap_block,
      unit.declaredConstant?_member m hm]
    rfl
  rw [declaringLines, List.filterMap_append, List.filterMap_append, hconstants, hscoring,
    filterMap_supportLines.1, List.append_nil, List.append_nil]

end ScoringUnit

end ScoringTree
