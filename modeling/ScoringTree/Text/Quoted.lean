import ScoringTree.Text.Hex
import ScoringTree.Text.Printable

/-!
# ScoringTree.Text.Quoted

Text shown between double quotes, as literals appear in the text of a rule.

The quote, the backslash and the common controls have a short escape; any other character that
is not printable, or that attaches to its neighbour, is shown by its code point in lower-case
hexadecimal without padding. All else stands for itself.
-/

namespace ScoringTree
namespace Text

/-- An escape that names the code point between braces. -/
def codePointEscape (c : Char) : List Char :=
  ['\\', 'u', '\x7b'] ++ hexDigits c.toNat ++ ['\x7d']

def quoteChar (c : Char) : List Char :=
  if c == '\x00' then ['\\', '0']
  else if c == '\t' then ['\\', 't']
  else if c == '\r' then ['\\', 'r']
  else if c == '\n' then ['\\', 'n']
  else if c == '\\' then ['\\', '\\']
  else if c == '"' then ['\\', '"']
  else if isExtender c then codePointEscape c
  else if isPrintable c then [c]
  else codePointEscape c

def quoteChars (cs : List Char) : List Char :=
  '"' :: (cs.flatMap quoteChar ++ ['"'])

def quoted (s : String) : String :=
  String.ofList (quoteChars s.toList)

end Text
end ScoringTree
