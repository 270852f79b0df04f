/-!
# ScoringTree.Text.Blank

Blank characters (the Unicode property `White_Space`) and trimming.

* `isBlank c`  — `c` counts as blank.
* `trim s`     — `s` without the blanks at its two ends.
-/

namespace ScoringTree
namespace Text

/-- The code points with the Unicode property `White_Space`. -/
def isBlank (c : Char) : Bool :=
  let n := c.toNat
  (9 ≤ n && n ≤ 13) || n == 0x20 || n == 0x85 || n == 0xa0 || n == 0x1680
    || (0x2000 ≤ n && n ≤ 0x200a) || n == 0x2028 || n == 0x2029 || n == 0x202f
    || n == 0x205f || n == 0x3000

/-- Blanks are dropped at the front, then at the back. -/
def trimChars (cs : List Char) : List Char :=
  ((cs.dropWhile isBlank).reverse.dropWhile isBlank).reverse

def trim (s : String) : String :=
  String.ofList (trimChars s.toList)

end Text
end ScoringTree
