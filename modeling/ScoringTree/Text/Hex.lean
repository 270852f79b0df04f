/-!
# ScoringTree.Text.Hex

Numbers in lower-case hexadecimal.
-/

namespace ScoringTree
namespace Text

/-- The digits of `n` in base sixteen. -/
def hexDigits (n : Nat) : List Char := Nat.toDigits 16 n

/-- At least `width` digits, with zeros in front. -/
def hexPadded (width n : Nat) : List Char :=
  List.replicate (width - (hexDigits n).length) '0' ++ hexDigits n

end Text
end ScoringTree
