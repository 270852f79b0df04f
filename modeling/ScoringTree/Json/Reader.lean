import ScoringTree.Datum
import ScoringTree.Json.Numeral

/-!
# ScoringTree.Json.Reader

JSON text read as a datum. Reading is strict: nothing but blanks may stand around the value, and no
control character inside a string. At most 127 lists and maps nest in what can be read; what lies
deeper must be well-formed and can only be skipped.

* `stringPieces`  — the characters and escapes of a string, up to its closing quote.
* `assemble`      — the text they stand for; surrogate escapes have to come in pairs.
* `readValue`     — a value at the front of a text, with what follows it.
* `read`          — a text that is one value.
-/

namespace ScoringTree
namespace Json

/-- The blanks that may stand between the parts of a value. -/
def isGap (c : Char) : Bool := c == ' ' || c == '\n' || c == '\t' || c == '\r'

def skipGaps (cs : List Char) : List Char := cs.dropWhile isGap

/-! ## Strings -/

/-- What stands in a string: a character, or a 16-bit unit given by its number. -/
inductive Piece where
  | char (c : Char)
  | unit (n : Nat)
  deriving DecidableEq, Repr

def hexDigit? (c : Char) : Option Nat :=
  if '0' ≤ c ∧ c ≤ '9' then some (c.toNat - '0'.toNat)
  else if 'a' ≤ c ∧ c ≤ 'f' then some (c.toNat - 'a'.toNat + 10)
  else if 'A' ≤ c ∧ c ≤ 'F' then some (c.toNat - 'A'.toNat + 10)
  else none

def hexUnit? (a b c d : Char) : Option Nat :=
  match hexDigit? a, hexDigit? b, hexDigit? c, hexDigit? d with
  | some w, some x, some y, some z => some (4096 * w + 256 * x + 16 * y + z)
  | _, _, _, _ => none

/-- The character a one-letter escape stands for. -/
def shortEscape? (c : Char) : Option Char :=
  if c == '"' || c == '\\' || c == '/' then some c
  else if c == 'b' then some '\x08'
  else if c == 'f' then some '\x0c'
  else if c == 'n' then some '\n'
  else if c == 'r' then some '\r'
  else if c == 't' then some '\t'
  else none

/-- The pieces of a string whose opening quote has been passed, and what follows its end. -/
def stringPieces : List Char → Option (List Piece × List Char)
  | [] => none
  | '"' :: cs => some ([], cs)
  | '\\' :: 'u' :: a :: b :: c :: d :: cs =>
    match hexUnit? a b c d, stringPieces cs with
    | some n, some (pieces, rest) => some (.unit n :: pieces, rest)
    | _, _ => none
  | '\\' :: e :: cs =>
    match shortEscape? e, stringPieces cs with
    | some c, some (pieces, rest) => some (.char c :: pieces, rest)
    | _, _ => none
  | c :: cs =>
    if c.toNat < 0x20 then none
    else
      match stringPieces cs with
      | some (pieces, rest) => some (.char c :: pieces, rest)
      | none => none

def isLead (n : Nat) : Bool := 0xd800 ≤ n && n < 0xdc00

def isTrail (n : Nat) : Bool := 0xdc00 ≤ n && n < 0xe000

/-- The character of a surrogate pair. -/
def pairChar (lead trail : Nat) : Char :=
  Char.ofNat (0x10000 + (lead - 0xd800) * 0x400 + (trail - 0xdc00))

/-- The text of the pieces; none if a surrogate stands alone. -/
def assemble : List Piece → Option (List Char)
  | [] => some []
  | .char c :: ps => (assemble ps).map (c :: ·)
  | .unit n :: ps =>
    if isLead n then
      match ps with
      | .unit m :: qs => if isTrail m then (assemble qs).map (pairChar n m :: ·) else none
      | _ => none
    else if isTrail n then none
    else (assemble ps).map (Char.ofNat n :: ·)

def stringDatum (pieces : List Piece) : Datum :=
  match assemble pieces with
  | some cs => .text (String.ofList cs)
  | none => .unreadable

def numberDatum (numeral : Numeral) : Datum :=
  match numeral.value? with
  | some n => .number n
  | none => .unreadable

/-- The datum of a list or a map, where `depth` of them may still nest; where none may, it cannot be
read. -/
def nested (depth : Nat) (d : Datum) : Datum := if depth = 0 then .unreadable else d

/-! ## Values

The first argument bounds the number of calls, the second says how many lists and maps may still
nest. -/

mutual

def readValue : Nat → Nat → List Char → Option (Datum × List Char)
  | 0, _, _ => none
  | fuel + 1, depth, cs =>
    match skipGaps cs with
    | 'n' :: 'u' :: 'l' :: 'l' :: rest => some (.null, rest)
    | 't' :: 'r' :: 'u' :: 'e' :: rest => some (.bool true, rest)
    | 'f' :: 'a' :: 'l' :: 's' :: 'e' :: rest => some (.bool false, rest)
    | '"' :: rest => (stringPieces rest).map fun r => (stringDatum r.1, r.2)
    | '[' :: rest =>
      match skipGaps rest with
      | ']' :: after => some (nested depth (.seq []), after)
      | _ => (readItems fuel (depth - 1) rest).map fun r => (nested depth (.seq r.1), r.2)
    | '\x7b' :: rest =>
      match skipGaps rest with
      | '\x7d' :: after => some (nested depth (.map []), after)
      | _ => (readMembers fuel (depth - 1) rest).map fun r => (nested depth (.map r.1), r.2)
    | front => (Numeral.read front).map fun r => (numberDatum r.1, r.2)

/-- One or more items, up to the closing bracket. -/
def readItems : Nat → Nat → List Char → Option (List Datum × List Char)
  | 0, _, _ => none
  | fuel + 1, depth, cs =>
    match readValue fuel depth cs with
    | none => none
    | some (item, rest) =>
      match skipGaps rest with
      | ',' :: more => (readItems fuel depth more).map fun r => (item :: r.1, r.2)
      | ']' :: after => some ([item], after)
      | _ => none

/-- One or more members, up to the closing brace. -/
def readMembers : Nat → Nat → List Char → Option (List (Datum × Datum) × List Char)
  | 0, _, _ => none
  | fuel + 1, depth, cs =>
    match skipGaps cs with
    | '"' :: front =>
      match stringPieces front with
      | none => none
      | some (key, rest) =>
        match skipGaps rest with
        | ':' :: body =>
          match readValue fuel depth body with
          | none => none
          | some (value, rest) =>
            match skipGaps rest with
            | ',' :: more =>
              (readMembers fuel depth more).map fun r => ((stringDatum key, value) :: r.1, r.2)
            | '\x7d' :: after => some ([(stringDatum key, value)], after)
            | _ => none
        | _ => none
    | _ => none

end

/-- How many lists and maps may nest in what can be read. -/
def nestingLimit : Nat := 127

def readChars (cs : List Char) : Option Datum :=
  match readValue (2 * cs.length + 2) nestingLimit cs with
  | some (value, rest) => if (skipGaps rest).isEmpty then some value else none
  | none => none

/-- The datum a text stands for. -/
def read (s : String) : Option Datum := readChars s.toList

/-- The value a text stands for. -/
def parse (s : String) : Option Json := (read s).bind Datum.toJson?

end Json
end ScoringTree
