import ScoringTree.Yaml.Cursor

/-!
# ScoringTree.Yaml.Scalar.Gap

Blanks and line breaks inside scalars. Within a line, blanks are kept. Across lines they are
dropped, and the breaks are folded: a single one becomes a blank, of several the first is dropped.
-/

namespace ScoringTree
namespace Yaml

/-- What stands between two words, the latest character first. -/
inductive Gap where
  | inline (blanks : List Char)
  /-- The first break is absent if it was escaped. -/
  | folded (first : Option Char) (more : List Char)
  deriving Repr

namespace Gap

def empty : Gap := .inline []

def isFolded : Gap → Bool
  | .inline _ => false
  | .folded _ _ => true

/-- A blank is dropped once there has been a line break. -/
def addBlank (c : Char) : Gap → Gap
  | .inline blanks => .inline (c :: blanks)
  | .folded first more => .folded first more

def addBreak (c : Char) : Gap → Gap
  | .inline _ => .folded (some c) []
  | .folded first more => .folded first (c :: more)

/-- What the gap contributes, the latest character first. -/
def contents : Gap → List Char
  | .inline blanks => blanks
  | .folded (some '\n') [] => [' ']
  | .folded (some '\n') more => more
  | .folded (some c) more => more ++ [c]
  | .folded none more => more

end Gap

end Yaml
end ScoringTree
