import ScoringTree.Yaml.Scalar.Gap

/-!
# ScoringTree.Yaml.Scalar.Plain

Scalars without quotes.

* `startsPlain`  — a plain scalar may begin here.
* `plain?`       — reads one; it may go on over lines that are indented far enough.
-/

namespace ScoringTree
namespace Yaml

/-- The characters that end a plain scalar in a flow collection. -/
def isFlowMark (c : Char) : Bool :=
  c == ',' || c == '[' || c == ']' || c == '\x7b' || c == '\x7d'

/-- The characters that cannot begin a plain scalar. -/
def isIndicator (c : Char) : Bool :=
  isFlowMark c || c == '-' || c == '?' || c == ':' || c == '#' || c == '&' || c == '*' ||
    c == '!' || c == '|' || c == '>' || c == '\'' || c == '"' || c == '%' || c == '@' || c == '\x60'

/-- A dash begins a scalar if no blank follows; so do a question mark and a colon outside flow
collections. -/
def startsPlain (inFlow : Bool) : List Char → Bool
  | [] => false
  | c :: cs =>
    !(isGap c || isIndicator c) ||
      (c == '-' && !(match cs with | d :: _ => isBlank d | [] => false)) ||
      (!inFlow && (c == '?' || c == ':') && !atGap cs)

/-- In a flow collection a colon right before one of the marks is refused. -/
def isMisplacedColon (inFlow : Bool) : List Char → Bool
  | ':' :: c :: _ => inFlow && (isFlowMark c || c == '?')
  | _ => false

/-- A colon before a gap ends a plain scalar; in a flow collection the marks do too. -/
def endsPlain (inFlow : Bool) : List Char → Bool
  | [] => true
  | c :: cs => (c == ':' && atGap cs) || (inFlow && isFlowMark c)

/-- The words behind a gap do not belong to the scalar. -/
def endsAfterGap (inFlow : Bool) (indent column : Nat) (rest : List Char) : Bool :=
  (!inFlow && column < indent) || (column == 0 && isDocumentMark rest) ||
    match rest with
    | '#' :: _ => true
    | _ => false

/-- A plain scalar, with the gap behind it. -/
structure PlainScalar where
  text : List Char
  gap : Gap
  cursor : Cursor

/-- Reads on after `text`, the latest character first. `inGap` tells that a gap was just read. -/
def plainFrom (inFlow : Bool) (indent : Nat) (text : List Char) (gap : Gap) (inGap : Bool)
    (place : Position) : List Char → Option PlainScalar
  | [] => some ⟨text.reverse, gap, ⟨place, []⟩⟩
  | c :: cs =>
    if isBlank c then
      if gap.isFolded && place.column < indent && c == '\t' then none
      else plainFrom inFlow indent text (gap.addBlank c) true (place.after c) cs
    else if isBreak c then
      plainFrom inFlow indent text (gap.addBreak c) true (place.after c) cs
    else if inGap && endsAfterGap inFlow indent place.column (c :: cs) then
      some ⟨text.reverse, gap, ⟨place, c :: cs⟩⟩
    else if isMisplacedColon inFlow (c :: cs) then none
    else if endsPlain inFlow (c :: cs) then some ⟨text.reverse, gap, ⟨place, c :: cs⟩⟩
    else
      plainFrom inFlow indent (c :: (gap.contents ++ text)) .empty false (place.after c) cs

def plain? (inFlow : Bool) (indent : Nat) (cursor : Cursor) : Option PlainScalar :=
  plainFrom inFlow indent [] .empty false cursor.toPosition cursor.rest

end Yaml
end ScoringTree
