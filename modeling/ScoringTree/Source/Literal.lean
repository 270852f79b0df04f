import ScoringTree.Number.Layout
import ScoringTree.Text.Hex

/-!
# ScoringTree.Source.Literal

Literals and comment text of generated Java source.

* `stringLiteral`  — a text between quotes, with escapes for what a literal cannot hold.
* `commentText`    — a text that cannot end the comment it stands in.
* `doubleLiteral`  — a float with the fewest digits that read back.
-/

namespace ScoringTree
namespace Source

/-- The control characters: the first 32, the last of ASCII and the 32 behind it. -/
def isControl (c : Char) : Bool :=
  c.toNat < 0x20 || (0x7f ≤ c.toNat && c.toNat < 0xa0)

def escapeChar (c : Char) : List Char :=
  if c == '"' then ['\\', '"']
  else if c == '\\' then ['\\', '\\']
  else if c == '\n' then ['\\', 'n']
  else if c == '\r' then ['\\', 'r']
  else if c == '\t' then ['\\', 't']
  else if isControl c then ['\\', 'u'] ++ Text.hexPadded 4 c.toNat
  else [c]

def stringLiteralChars (cs : List Char) : List Char :=
  '"' :: (cs.flatMap escapeChar ++ ['"'])

def stringLiteral (s : String) : String := String.ofList (stringLiteralChars s.toList)

/-- Backslashes are doubled, so that no unicode escape can begin in a comment. -/
def doubleBackslashes (cs : List Char) : List Char :=
  cs.flatMap fun c => if c == '\\' then ['\\', '\\'] else [c]

/-- A blank parts a star from a slash behind it. -/
def breakTerminators : List Char → List Char
  | [] => []
  | '*' :: '/' :: cs => '*' :: ' ' :: '/' :: breakTerminators cs
  | c :: cs => c :: breakTerminators cs

def commentText (s : String) : String :=
  String.ofList (breakTerminators (doubleBackslashes s.toList))

def doubleLiteral (x : Float) : String := Number.floatText .source x

end Source
end ScoringTree
