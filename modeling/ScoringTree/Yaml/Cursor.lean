/-!
# ScoringTree.Yaml.Cursor

Positions in YAML text.

* `readText`  — the characters of a text, line breaks made alike; none if one is not allowed.
* `Position`  — a line, a column, and how many bytes stand before.
* `Cursor`    — what is still to be read, with its position.
-/

namespace ScoringTree
namespace Yaml

/-- What YAML text may hold: tabs, line breaks and all printable characters. -/
def isAllowed (c : Char) : Bool :=
  let n := c.toNat
  n == 0x09 || n == 0x0a || n == 0x0d || (0x20 ≤ n && n ≤ 0x7e) || n == 0x85 ||
    (0xa0 ≤ n && n ≤ 0xd7ff) || (0xe000 ≤ n && n ≤ 0xfffd) || 0x10000 ≤ n

/-- A carriage return, a next-line character and the pair of carriage return and newline all become
a newline. -/
def unifyBreaks : List Char → List Char
  | [] => []
  | '\r' :: '\n' :: cs => '\n' :: unifyBreaks cs
  | c :: cs => (if c == '\r' || c == '\u0085' then '\n' else c) :: unifyBreaks cs

def readText (text : String) : Option (List Char) :=
  if text.toList.all isAllowed then some (unifyBreaks text.toList) else none

/-- Ends a line: the newline, the line separator and the paragraph separator. -/
def isBreak (c : Char) : Bool := c == '\n' || c == '\u2028' || c == '\u2029'

def isBlank (c : Char) : Bool := c == ' ' || c == '\t'

def isGap (c : Char) : Bool := isBlank c || isBreak c

/-- The text has ended or goes on with a blank or a line break. -/
def atGap : List Char → Bool
  | [] => true
  | c :: _ => isGap c

/-- Three equal marks that stand alone: the line that starts or ends a document. -/
def isDocumentMark : List Char → Bool
  | '-' :: '-' :: '-' :: cs => atGap cs
  | '.' :: '.' :: '.' :: cs => atGap cs
  | _ => false

structure Position where
  line : Nat
  column : Nat
  /-- How many bytes stand before. -/
  offset : Nat
  deriving DecidableEq, Repr

namespace Position

def start : Position := ⟨0, 0, 0⟩

/-- The position behind a character. -/
def after (place : Position) (c : Char) : Position :=
  let offset := place.offset + c.utf8Size
  if isBreak c then ⟨place.line + 1, 0, offset⟩ else ⟨place.line, place.column + 1, offset⟩

end Position

structure Cursor extends Position where
  rest : List Char
  deriving Repr

namespace Cursor

def start (text : List Char) : Cursor := ⟨.start, text⟩

/-- The cursor after as many characters. -/
def forward (cursor : Cursor) (count : Nat) : Cursor :=
  ⟨(cursor.rest.take count).foldl Position.after cursor.toPosition, cursor.rest.drop count⟩

/-- The characters ahead that satisfy `p`. -/
def span (cursor : Cursor) (p : Char → Bool) : List Char := cursor.rest.takeWhile p

/-- The cursor after the characters that satisfy `p`. -/
def skipWhile (cursor : Cursor) (p : Char → Bool) : Cursor :=
  cursor.forward (cursor.span p).length

/-- The cursor at the next line, if only blanks and a comment stand before it. -/
def endLine? (cursor : Cursor) : Option Cursor :=
  let cursor := cursor.skipWhile isBlank
  let cursor :=
    match cursor.rest with
    | '#' :: _ => cursor.skipWhile fun c => !isBreak c
    | _ => cursor
  match cursor.rest with
  | [] => some cursor
  | c :: _ => if isBreak c then some (cursor.forward 1) else none

end Cursor

end Yaml
end ScoringTree
