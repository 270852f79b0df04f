/-!
# ScoringTree.Text.Lines

The lines of a text. A carriage return in front of a newline belongs to the end of the line.
-/

namespace ScoringTree
namespace Text

/-- Drops the carriage returns that end a line together with the newline. -/
def lineEnds : List Char → List Char
  | [] => []
  | '\r' :: '\n' :: cs => '\n' :: lineEnds cs
  | c :: cs => c :: lineEnds cs

/-- What stands between newlines. -/
def lines (text : String) : List String :=
  ((lineEnds text.toList).splitOn '\n').map String.ofList

end Text
end ScoringTree
