import ScoringTree.Yaml.Scalar.Gap

/-!
# ScoringTree.Yaml.Scalar.Quoted

Scalars in quotes. Between single quotes only the quote itself is special, and is written twice;
between double quotes a backslash begins an escape.

* `escaped?`       — the character that a letter behind a backslash stands for.
* `singleQuoted?`, `doubleQuoted?`
                   — read a scalar from behind its opening quote on.
-/

namespace ScoringTree
namespace Yaml

/-- A document mark must not stand in a quoted scalar. -/
def isStrayMark (column : Nat) (rest : List Char) : Bool := column == 0 && isDocumentMark rest

/-- Reads on after `text`, the latest character first. -/
def singleQuotedFrom (text : List Char) (gap : Gap) (place : Position) :
    List Char → Option (List Char × Cursor)
  | [] => none
  | '\'' :: '\'' :: cs =>
    singleQuotedFrom ('\'' :: (gap.contents ++ text)) .empty
      ((place.after '\'').after '\'') cs
  | '\'' :: cs => some ((gap.contents ++ text).reverse, ⟨place.after '\'', cs⟩)
  | c :: cs =>
    if isBlank c then singleQuotedFrom text (gap.addBlank c) (place.after c) cs
    else if isBreak c then singleQuotedFrom text (gap.addBreak c) (place.after c) cs
    else if isStrayMark place.column (c :: cs) then none
    else singleQuotedFrom (c :: (gap.contents ++ text)) .empty (place.after c) cs

def singleQuoted? (cursor : Cursor) : Option (List Char × Cursor) :=
  singleQuotedFrom [] .empty cursor.toPosition cursor.rest

/-- The escapes of one letter. -/
def escaped? (c : Char) : Option Char :=
  [('0', '\x00'), ('a', '\x07'), ('b', '\x08'), ('t', '\t'), ('\t', '\t'), ('n', '\n'),
    ('v', '\x0b'), ('f', '\x0c'), ('r', '\r'), ('e', '\x1b'), (' ', ' '), ('"', '"'), ('/', '/'),
    ('\\', '\\'), ('N', '\u0085'), ('_', '\u00a0'), ('L', '\u2028'), ('P', '\u2029')].lookup c

/-- How many hexadecimal digits follow the letter of an escape by code. -/
def codeLength? (c : Char) : Option Nat := [('x', 2), ('u', 4), ('U', 8)].lookup c

def hexValue? (c : Char) : Option Nat :=
  if c.isDigit then some (c.toNat - 48)
  else if 'a' ≤ c ∧ c ≤ 'f' then some (c.toNat - 87)
  else if 'A' ≤ c ∧ c ≤ 'F' then some (c.toNat - 55)
  else none

/-- The character of a code; surrogates and what is beyond the last character have none. -/
def charOf? (code : Nat) : Option Char :=
  if (0xd800 ≤ code && code ≤ 0xdfff) || 0x10ffff < code then none else some (Char.ofNat code)

/-- Where a reader is within double quotes. -/
inductive QuoteState where
  | words (gap : Gap)
  /-- Behind a backslash. -/
  | escape
  /-- Inside an escape by code, with the digits still to come and the code so far. -/
  | code (left value : Nat)

/-- Reads on after `text`, the latest character first. -/
def doubleQuotedFrom (text : List Char) (state : QuoteState) (place : Position) :
    List Char → Option (List Char × Cursor)
  | [] => none
  | c :: cs =>
    match state with
    | .words gap =>
      if isBlank c then doubleQuotedFrom text (.words (gap.addBlank c)) (place.after c) cs
      else if isBreak c then doubleQuotedFrom text (.words (gap.addBreak c)) (place.after c) cs
      else if isStrayMark place.column (c :: cs) then none
      else if c == '"' then some ((gap.contents ++ text).reverse, ⟨place.after c, cs⟩)
      else if c == '\\' then doubleQuotedFrom (gap.contents ++ text) .escape (place.after c) cs
      else doubleQuotedFrom (c :: (gap.contents ++ text)) (.words .empty) (place.after c) cs
    | .escape =>
      if isBreak c then doubleQuotedFrom text (.words (.folded none [])) (place.after c) cs
      else
        match escaped? c with
        | some d => doubleQuotedFrom (d :: text) (.words .empty) (place.after c) cs
        | none =>
          match codeLength? c with
          | some left => doubleQuotedFrom text (.code left 0) (place.after c) cs
          | none => none
    | .code left value =>
      match hexValue? c with
      | none => none
      | some digit =>
        let value := value * 16 + digit
        if 1 < left then doubleQuotedFrom text (.code (left - 1) value) (place.after c) cs
        else
          match charOf? value with
          | some d => doubleQuotedFrom (d :: text) (.words .empty) (place.after c) cs
          | none => none

def doubleQuoted? (cursor : Cursor) : Option (List Char × Cursor) :=
  doubleQuotedFrom [] (.words .empty) cursor.toPosition cursor.rest

end Yaml
end ScoringTree
