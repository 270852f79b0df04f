import ScoringTree.Number.Binary64
import ScoringTree.Text.Blank

/-!
# ScoringTree.Number.Reading

Numbers read from text, correctly rounded.

The grammar: an optional sign, digits with an optional point on either side of which digits may
be absent but not on both, and an optional exponent; or one of the words `inf`, `infinity` and
`nan` in any case.
-/

namespace ScoringTree
namespace Number

/-- The value of a run of decimal digits. -/
def digitsValue (ds : List Char) : Nat :=
  ds.foldl (fun n c => 10 * n + (c.toNat - '0'.toNat)) 0

/-- An optional sign in front; true when it is a minus. -/
def takeSign : List Char → Bool × List Char
  | '-' :: cs => (true, cs)
  | '+' :: cs => (false, cs)
  | cs => (false, cs)

def asciiLower (cs : List Char) : List Char := cs.map Char.toLower

/-- An exponent that reaches to the end of the text, zero when there is none. -/
def readExponent : List Char → Option Int
  | [] => some 0
  | c :: cs =>
    if c == 'e' || c == 'E' then
      let signed := takeSign cs
      if signed.2.isEmpty || !signed.2.all Char.isDigit then none
      else
        let n : Int := digitsValue signed.2
        some (if signed.1 then -n else n)
    else none

/-- Digits, point and exponent, without a sign. -/
def readUnsigned (negative : Bool) (cs : List Char) : Option Float :=
  let whole := cs.takeWhile Char.isDigit
  let rest := cs.dropWhile Char.isDigit
  let fraction :=
    match rest with
    | '.' :: r => (r.takeWhile Char.isDigit, r.dropWhile Char.isDigit)
    | r => ([], r)
  if whole.isEmpty && fraction.1.isEmpty then none
  else
    (readExponent fraction.2).map fun e =>
      ofDecimal negative (digitsValue (whole ++ fraction.1)) (e - fraction.1.length)

def readFloatChars (cs : List Char) : Option Float :=
  let signed := takeSign cs
  let word := asciiLower signed.2
  if word == "inf".toList || word == "infinity".toList then
    some (ofRatio signed.1 (twoPow 2000) 1)
  else if word == "nan".toList then some (0.0 / 0.0)
  else readUnsigned signed.1 signed.2

/-- The float a text stands for; blanks are not allowed. -/
def readFloat (s : String) : Option Float := readFloatChars s.toList

/-- The float a text stands for once the blanks around it are dropped. -/
def readTrimmed (s : String) : Option Float := readFloatChars (Text.trimChars s.toList)

end Number
end ScoringTree
