import ScoringTree.Yaml.Cursor

/-!
# ScoringTree.Yaml.Scalar.Block

Scalars written as indented blocks, kept line by line or folded.

* `BlockHeader`  — what the line of the indicator says: chomping and indentation.
* `block?`       — reads a block scalar from behind its indicator on.
-/

namespace ScoringTree
namespace Yaml

/-- What happens to the line breaks at the end. -/
inductive Chomping where
  /-- All are dropped. -/
  | strip
  /-- One is kept. -/
  | clip
  | keep
  deriving DecidableEq, Repr

structure BlockHeader where
  chomping : Chomping
  /-- How much deeper the block is than what it stands in; 0 if the text has to show. -/
  increment : Nat
  deriving DecidableEq, Repr

namespace BlockHeader

def chomping? (c : Char) : Option Chomping :=
  if c == '+' then some .keep else if c == '-' then some .strip else none

/-- The two indicators in either order, each at most once; a zero is refused. -/
def read? (cursor : Cursor) : Option (BlockHeader × Cursor) :=
  match cursor.rest with
  | [] => some (⟨.clip, 0⟩, cursor)
  | c :: cs =>
    match chomping? c with
    | some chomping =>
      match cs with
      | d :: _ =>
        if d == '0' then none
        else if d.isDigit then some (⟨chomping, d.toNat - 48⟩, cursor.forward 2)
        else some (⟨chomping, 0⟩, cursor.forward 1)
      | [] => some (⟨chomping, 0⟩, cursor.forward 1)
    | none =>
      if c == '0' then none
      else if c.isDigit then
        match cs.head?.bind chomping? with
        | some chomping => some (⟨chomping, c.toNat - 48⟩, cursor.forward 2)
        | none => some (⟨.clip, c.toNat - 48⟩, cursor.forward 1)
      else some (⟨.clip, 0⟩, cursor)

end BlockHeader

/-- A block as far as it has been read; characters stand in reverse. -/
structure BlockText where
  text : List Char
  /-- The break that ended the last line. -/
  lastBreak : Option Char
  /-- The breaks of the empty lines behind it. -/
  breaks : List Char
  /-- The last line began with a blank. -/
  blankLine : Bool

namespace BlockText

def empty : BlockText := ⟨[], none, [], false⟩

/-- The text to which the next line is added. Folding turns a single break between two lines into
a blank and drops the first of several; lines that begin with a blank are left as they are. -/
def joined (block : BlockText) (folds nextIsBlank : Bool) : List Char :=
  if folds && block.lastBreak == some '\n' && !block.blankLine && !nextIsBlank then
    if block.breaks.isEmpty then ' ' :: block.text else block.breaks ++ block.text
  else block.breaks ++ (block.lastBreak.toList ++ block.text)

def chomped (block : BlockText) : Chomping → List Char
  | .strip => block.text.reverse
  | .clip => (block.lastBreak.toList ++ block.text).reverse
  | .keep => (block.breaks ++ (block.lastBreak.toList ++ block.text)).reverse

end BlockText

/-- Where a reader is within a block. -/
inductive BlockState where
  /-- Before a line. The indentation is 0 until a line shows it; `widest` is the widest empty line
  so far. -/
  | before (indent widest : Nat)
  | inside (indent : Nat)

/-- Reads on. `least` is the least indentation a block may show. -/
def blockFrom (folds : Bool) (least : Nat) (block : BlockText) (state : BlockState)
    (place : Position) : List Char → Option (BlockText × Cursor)
  | [] => some (block, ⟨place, []⟩)
  | c :: cs =>
    match state with
    | .inside indent =>
      if isBreak c then
        blockFrom folds least { block with lastBreak := some c } (.before indent 0)
          (place.after c) cs
      else
        blockFrom folds least { block with text := c :: block.text } (.inside indent)
          (place.after c) cs
    | .before indent widest =>
      let inIndentation := indent == 0 || place.column < indent
      if inIndentation && c == ' ' then
        blockFrom folds least block (.before indent widest) (place.after c) cs
      else if inIndentation && c == '\t' then none
      else if isBreak c then
        blockFrom folds least { block with breaks := c :: block.breaks }
          (.before indent (max widest place.column)) (place.after c) cs
      else
        let indent :=
          if indent == 0 then max (max (max widest place.column) least) 1 else indent
        if place.column == indent then
          blockFrom folds least ⟨c :: block.joined folds (isBlank c), none, [], isBlank c⟩
            (.inside indent) (place.after c) cs
        else some (block, ⟨place, c :: cs⟩)

/-- Reads a block that stands in one indented by `parent`, if it stands in any. -/
def block? (folds : Bool) (parent : Option Nat) (cursor : Cursor) :
    Option (List Char × Cursor) := do
  let (header, cursor) ← BlockHeader.read? cursor
  let cursor ← cursor.endLine?
  let least := match parent with | some i => i + 1 | none => 0
  let indent := if header.increment == 0 then 0 else parent.getD 0 + header.increment
  let (block, cursor) ←
    blockFrom folds least .empty (.before indent 0) cursor.toPosition cursor.rest
  some (block.chomped header.chomping, cursor)

end Yaml
end ScoringTree
