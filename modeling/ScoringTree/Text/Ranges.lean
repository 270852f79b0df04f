/-!
# ScoringTree.Text.Ranges

Sets of characters given as a table of closed ranges of code points.
-/

namespace ScoringTree
namespace Text

/-- A table of closed ranges of code points, in increasing order. -/
abbrev Ranges := Array (Nat × Nat)

def Ranges.contains (table : Ranges) (c : Char) : Bool :=
  table.any fun r => r.1 ≤ c.toNat && c.toNat ≤ r.2

end Text
end ScoringTree
