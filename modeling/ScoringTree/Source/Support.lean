import ScoringTree.Source.Code

/-!
# ScoringTree.Source.Support

The part that all generated units share: the class of outcomes and the helpers that conditions
call. Every helper answers with no value when it cannot tell.

* `outcomeClass`  — what a unit answers with.
* `helpers`       — reading of fields, comparisons, membership and connectives.
-/

namespace ScoringTree
namespace Source

/-- A private helper. -/
def helper (signature : String) (body : List Code) : Code :=
  .block ("private static " ++ signature) body

/-- A public getter of a member. -/
def getter (type name member : String) : Code :=
  .block ("public " ++ type ++ " " ++ name ++ "()") [.line ("return " ++ member ++ ";")]

def outcomeClass : Code :=
  .block "public static final class Outcome" [
    .line "private final String nodeId;",
    .line "private final Object score;",
    .line "private final Map<String, Double> confidences;",
    .blank,
    .block "Outcome(String nodeId, Object score, String[] labels, double[] values)" [
      .line "this.nodeId = nodeId;",
      .line "this.score = score;",
      .line "Map<String, Double> byLabel = new LinkedHashMap<>();",
      .block "for (int i = 0; i < labels.length; i++)" [
        .line "byLabel.put(labels[i], values[i]);"],
      .line "this.confidences = Collections.unmodifiableMap(byLabel);"],
    .blank,
    getter "String" "getNodeId" "nodeId",
    .blank,
    getter "Object" "getScore" "score",
    .blank,
    getter "Map<String, Double>" "getConfidences" "confidences"]

/-! ## Reading of fields -/

def isTrueHelper : Code :=
  helper "boolean isTrue(Boolean value)" [.line "return Boolean.TRUE.equals(value);"]

/-- A helper that reads a field of the record. -/
def readingHelper (typeAndName : String) (body : List Code) : Code :=
  helper (typeAndName ++ "(Map<String, Object> requestData, String field)") body

def fetch : Code := .line "Object value = requestData.get(field);"

def numberHelper : Code :=
  readingHelper "Double number" [
    fetch,
    .block "if (value instanceof Number)" [.line "return ((Number) value).doubleValue();"],
    .block "if (value instanceof String)" [
      .pair "try" [.line "return Double.valueOf(((String) value).trim());"]
        "catch (NumberFormatException e)" [.line "return null;"]],
    .line "return null;"]

def textHelper : Code :=
  readingHelper "String text" [
    fetch,
    .line "return value == null ? null : String.valueOf(value);"]

def flagHelper : Code :=
  readingHelper "Boolean flag" [
    fetch,
    .block "if (value instanceof Boolean)" [.line "return (Boolean) value;"],
    .block "if (value instanceof String)" [
      .line "String raw = ((String) value).trim();",
      .block "if (raw.equalsIgnoreCase(\"true\"))" [.line "return Boolean.TRUE;"],
      .block "if (raw.equalsIgnoreCase(\"false\"))" [.line "return Boolean.FALSE;"]],
    .line "return null;"]

def presenceHelpers : List Code :=
  [readingHelper "boolean isMissing" [.line "return requestData.get(field) == null;"],
    readingHelper "boolean isNotMissing" [.line "return requestData.get(field) != null;"]]

/-! ## Comparisons and membership -/

/-- A comparison of a value that may be absent with a literal. -/
def comparisonHelper (name type literalType test : String) : Code :=
  helper ("Boolean " ++ name ++ "(" ++ type ++ " value, " ++ literalType ++ " literal)")
    [.line ("return value == null ? null : " ++ test ++ ";")]

/-- The helpers for equality or its opposite, one for each type. -/
def equalityHelpers (name symbol negation : String) : List Code :=
  [comparisonHelper name "Double" "double" ("value " ++ symbol ++ " literal"),
    comparisonHelper name "String" "String" (negation ++ "value.equals(literal)"),
    comparisonHelper name "Boolean" "boolean" ("value " ++ symbol ++ " literal")]

/-- The helpers for an order, one for each type that has one. -/
def orderHelpers (name symbol : String) : List Code :=
  [comparisonHelper name "Double" "double" ("value " ++ symbol ++ " literal"),
    comparisonHelper name "String" "String" ("value.compareTo(literal) " ++ symbol ++ " 0")]

def unknownIfAbsent : Code := .block "if (value == null)" [.line "return null;"]

/-- Membership decided literal by literal. -/
def searchHelper (type literalType : String) : Code :=
  helper ("Boolean isIn(" ++ type ++ " value, " ++ literalType ++ "... literals)") [
    unknownIfAbsent,
    .block ("for (" ++ literalType ++ " literal : literals)") [
      .block "if (value == literal)" [.line "return Boolean.TRUE;"]],
    .line "return Boolean.FALSE;"]

def textSearchHelper : Code :=
  helper "Boolean isIn(String value, String... literals)" [
    unknownIfAbsent,
    .line "return Arrays.asList(literals).contains(value);"]

def exclusionHelper (type literalType : String) : Code :=
  helper ("Boolean isNotIn(" ++ type ++ " value, " ++ literalType ++ "... literals)") [
    .line "Boolean in = isIn(value, literals);",
    .line "return in == null ? null : !in;"]

/-! ## Connectives -/

def connectiveHelper (name : String) (body : List Code) : Code :=
  helper ("Boolean " ++ name ++ "(Boolean... operands)") body

/-- A connective that one value decides, and that otherwise is the other value or unknown. -/
def decidedHelper (name deciding other : String) : Code :=
  connectiveHelper name [
    .line ("Boolean result = Boolean." ++ other ++ ";"),
    .block "for (Boolean operand : operands)" [
      .block ("if (Boolean." ++ deciding ++ ".equals(operand))") [
        .line ("return Boolean." ++ deciding ++ ";")],
      .block "if (operand == null)" [.line "result = null;"]],
    .line "return result;"]

def parityHelper : Code :=
  connectiveHelper "xor" [
    .line "boolean parity = false;",
    .block "for (Boolean operand : operands)" [
      .block "if (operand == null)" [.line "return null;"],
      .line "parity ^= operand;"],
    .line "return parity;"]

def surrogateHelper : Code :=
  connectiveHelper "surrogate" [
    .block "for (Boolean operand : operands)" [
      .block "if (operand != null)" [.line "return operand;"]],
    .line "return null;"]

def helpers : List Code :=
  [isTrueHelper, numberHelper, textHelper, flagHelper] ++ presenceHelpers ++
    equalityHelpers "eq" "==" "" ++ equalityHelpers "ne" "!=" "!" ++
    orderHelpers "lt" "<" ++ orderHelpers "le" "<=" ++
    orderHelpers "gt" ">" ++ orderHelpers "ge" ">=" ++
    [searchHelper "Double" "double", textSearchHelper, searchHelper "Boolean" "boolean",
      exclusionHelper "Double" "double", exclusionHelper "String" "String",
      exclusionHelper "Boolean" "boolean",
      decidedHelper "and" "FALSE" "TRUE", decidedHelper "or" "TRUE" "FALSE",
      parityHelper, surrogateHelper]

end Source
end ScoringTree
