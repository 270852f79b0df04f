import ScoringTree.Rule.RuleSet
import ScoringTree.Source.Skeleton
import ScoringTree.Source.Support
import ScoringTree.Text.Lines

/-!
# ScoringTree.Source.Unit

Generated units: a class that scores records as its model says.

The class has a constant for every node with a score and a method for every node. A method of an
inner node tests the children in order and goes on with the method of the first that is true.

* `ScoringUnit`     — the unit, before it is text.
* `RuleSet.unit?`   — the unit of a rule set; none if there is no rule.
* `ScoringUnit.code`, `ScoringUnit.text`
                    — the unit laid out.
-/

namespace ScoringTree

/-- What a method answers with: the outcome of a node, or none. -/
abbrev Reply := Option Nat

/-- What is done when the condition of a child is unknown. -/
inductive Reaction where
  | reply (reply : Reply)
  | descend (node : Nat)
  deriving DecidableEq, Repr

/-- One child tested. -/
structure UnitStep where
  condition : Condition
  child : Nat
  /-- Without one, the next child is tested. -/
  onUnknown : Option Reaction

inductive MethodBody where
  | leaf (reply : Reply)
  | choice (steps : List UnitStep) (fallback : Reply)

structure UnitMethod where
  node : Nat
  body : MethodBody

structure ScoringUnit where
  package : String
  /-- The class, filled in for the model. -/
  frame : Source.Skeleton
  modelName : String
  /-- The texts of the rules, for the comment. -/
  rules : List String
  outcomes : List Outcome
  guards : List Condition
  rootCondition : Option Condition
  root : Nat
  methods : List UnitMethod

namespace ScoringUnit

/-- The class with its package. -/
def qualifiedName (unit : ScoringUnit) : String :=
  if unit.package.isEmpty then unit.frame.className
  else unit.package ++ "." ++ unit.frame.className

end ScoringUnit

/-! ## From rule sets -/

namespace Branch

def reply (branch : Branch) : Reply := branch.outcome.map (·.node)

def onUnknown (branch : Branch) : MissingValueStrategy → Option Reaction
  | .none => branch.defaultChild.map .descend
  | .defaultChild => branch.defaultChild.map .descend
  | .nullPrediction => some (.reply none)
  | .lastPrediction => some (.reply branch.reply)

def fallback (branch : Branch) : NoTrueChildStrategy → Reply
  | .returnNullPrediction => none
  | .returnLastPrediction => branch.reply

/-- The test of a child. A child without a condition is always entered. -/
def step (child : Branch) (onUnknown : Option Reaction) : UnitStep :=
  { condition := child.condition.getD (.constant true), child := child.node, onUnknown }

end Branch

namespace RuleSet

def method (ruleSet : RuleSet) (branch : Branch) : UnitMethod :=
  if branch.isLeaf then ⟨branch.node, .leaf branch.reply⟩
  else
    ⟨branch.node, .choice
      ((branch.children.filterMap ruleSet.branch?).map
        (·.step (branch.onUnknown ruleSet.onMissing)))
      (branch.fallback ruleSet.onNoMatch)⟩

def unit? (ruleSet : RuleSet) (frame : Source.Skeleton) (package : String) : Option ScoringUnit :=
  match ruleSet.branches with
  | [] => none
  | root :: _ =>
    if ruleSet.rules.isEmpty then none
    else
      some {
        package, frame,
        modelName := ruleSet.modelName,
        rules := ruleSet.rules.map Rule.text,
        outcomes := ruleSet.branches.filterMap (·.outcome),
        guards := ruleSet.guards,
        rootCondition := root.condition,
        root := root.node,
        methods := ruleSet.branches.map ruleSet.method }

end RuleSet

/-! ## Layout -/

namespace ScoringUnit

open Source

def methodName (node : Nat) : String := "node" ++ toString node

def constantName (node : Nat) : String := "OUTCOME_" ++ toString node

def call (node : Nat) : String := methodName node ++ "(requestData)"

def replyText : Reply → String
  | none => "null"
  | some node => constantName node

def returnLine (expression : String) : Code := .line ("return " ++ expression ++ ";")

def reactionCode : Reaction → Code
  | .reply reply => returnLine (replyText reply)
  | .descend node => returnLine (call node)

def arrayText (type : String) (items : List String) : String :=
  "new " ++ type ++ "[] \x7b" ++ String.intercalate ", " items ++ "\x7d"

def outcomeArguments (outcome : Outcome) : String :=
  String.intercalate ", "
    [stringLiteral outcome.nodeId, outcome.score.source,
      arrayText "String" (outcome.confidences.map fun c => stringLiteral c.1),
      arrayText "double" (outcome.confidences.map fun c => doubleLiteral c.2)]

def outcomeCode (outcome : Outcome) : Code :=
  .line ("private static final Outcome " ++ constantName outcome.node ++ " = new Outcome(" ++
    outcomeArguments outcome ++ ");")

/-- Gives up unless the condition is true. -/
def guardCode (condition : Condition) : Code :=
  .block ("if (!isTrue(" ++ condition.source ++ "))") [returnLine "null"]

def stepCode (step : UnitStep) : List Code :=
  [.line ("matched = " ++ step.condition.source ++ ";"),
    .block "if (isTrue(matched))" [returnLine (call step.child)]] ++
    (step.onUnknown.toList.map fun reaction =>
      .block "if (matched == null)" [reactionCode reaction])

def bodyCode : MethodBody → List Code
  | .leaf reply => [returnLine (replyText reply)]
  | .choice steps fallback =>
    .line "Boolean matched;" :: (steps.flatMap stepCode ++ [returnLine (replyText fallback)])

/-- The parameter of every method of a unit. -/
def parameter : String := "(Map<String, Object> requestData)"

def methodCode (method : UnitMethod) : Code :=
  .block ("private Outcome " ++ methodName method.node ++ parameter) (bodyCode method.body)

def evaluateCode (unit : ScoringUnit) : Code :=
  .block ("public Outcome evaluate" ++ parameter)
    (unit.guards.map guardCode ++ unit.rootCondition.toList.map guardCode ++
      [returnLine (call unit.root)])

def comment (unit : ScoringUnit) : List Code :=
  [.line "/**",
    .line (" * Scoring unit for tree model " ++ commentText unit.modelName ++ "."),
    .line " *",
    .line " * Rules:"] ++
  (unit.rules.map fun rule => .line (" *   " ++ commentText rule)) ++
  [.line " */"]

/-- The class with its superclass, if that has a name. -/
def classHead (unit : ScoringUnit) : String :=
  "public class " ++ unit.frame.className ++
    match unit.frame.superclass with
    | none => ""
    | some name => if name.isEmpty then "" else " extends " ++ name

def classBody (unit : ScoringUnit) : List Code :=
  .blank :: (unit.outcomes.map outcomeCode ++
    .blank :: ((Text.lines unit.frame.constructor.print).map Code.line ++
      .blank :: Code.spaced
        (unit.evaluateCode :: (unit.methods.map methodCode ++ outcomeClass :: helpers))))

def code (unit : ScoringUnit) : List Code :=
  (if unit.package.isEmpty then [] else [.line ("package " ++ unit.package ++ ";"), .blank]) ++
  (unit.frame.imports.map fun name => .line ("import " ++ name ++ ";")) ++
  .blank :: (unit.comment ++ [.block unit.classHead unit.classBody])

def text (unit : ScoringUnit) : String := Code.print unit.code

end ScoringUnit

end ScoringTree
