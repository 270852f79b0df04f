/-!
# ScoringTree.Source.Code

Program text before it is laid out.

* `Code`        — lines and blocks of lines.
* `Code.lines`  — the lines at a depth of nesting, four blanks for each level.
* `Code.print`  — the text, every line ended.
-/

namespace ScoringTree
namespace Source

inductive Code where
  | blank
  | line (text : String)
  /-- A head with a body in braces. -/
  | block (head : String) (body : List Code)
  /-- Two blocks, the second opened on the line that closes the first. -/
  | pair (head : String) (body : List Code) (secondHead : String) (secondBody : List Code)

namespace Code

/-- A text moved in by that many levels. -/
def indented (depth : Nat) (text : String) : String :=
  String.ofList (List.replicate (4 * depth) ' ') ++ text

mutual

def lines (depth : Nat) : Code → List String
  | .blank => [""]
  | .line text => [indented depth text]
  | .block head body =>
    indented depth (head ++ " \x7b") :: (linesAll (depth + 1) body ++ [indented depth "\x7d"])
  | .pair head body secondHead secondBody =>
    indented depth (head ++ " \x7b") ::
      (linesAll (depth + 1) body ++
        indented depth ("\x7d " ++ secondHead ++ " \x7b") ::
          (linesAll (depth + 1) secondBody ++ [indented depth "\x7d"]))

def linesAll (depth : Nat) : List Code → List String
  | [] => []
  | code :: rest => lines depth code ++ linesAll depth rest

end

def print (codes : List Code) : String :=
  String.join ((linesAll 0 codes).map (· ++ "\n"))

/-- Pieces of code with a blank line between them. -/
def spaced : List Code → List Code
  | [] => []
  | [code] => [code]
  | code :: rest => code :: .blank :: spaced rest

end Code

end Source
end ScoringTree
