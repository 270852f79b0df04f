import ScoringTree.Yaml.Property
import ScoringTree.Yaml.Scalar.Block
import ScoringTree.Yaml.Scalar.Plain

/-!
# ScoringTree.Yaml.Token.Lexer

YAML text cut into tokens.

That a node is a key shows only at the colon behind it, so the place of every node that may turn
out to be one is remembered, one for each level of flow collections; the token that announces the
key is put there when the colon comes. Such a node has to lie on the line of its colon and within
1024 bytes of it.

* `Lexer`     — what has been read and what has to be remembered.
* `skipGaps`  — blanks, comments and empty lines passed over.
* `tokens?`   — all tokens of a text; none if it cannot be cut.
-/

namespace ScoringTree
namespace Yaml

/-- A node that may turn out to be a key. -/
structure PendingKey where
  /-- How many tokens stand before it. -/
  position : Nat
  place : Position
  /-- Nothing but a key may stand here. -/
  required : Bool

structure Lexer where
  cursor : Cursor
  /-- The tokens so far, the latest first. -/
  tokens : List Token
  /-- How many flow collections are open. -/
  flow : Nat
  /-- The columns of the open blocks, the innermost first. -/
  indents : List Nat
  /-- The pending key of the innermost flow collection, then those of the outer ones. -/
  key : Option PendingKey
  outerKeys : List (Option PendingKey)
  /-- A node that starts here may be a key. -/
  keyAllowed : Bool

/-- Passes over blanks, comments and line breaks. Outside flow collections a tab is no blank where
a key may stand, and after a line break one may. A byte order mark may start a line. Gives the
place reached, and whether a key may stand there. -/
def skipGapsFrom (inFlow keyAllowed inComment : Bool) (place : Position) :
    List Char → Cursor × Bool
  | [] => (⟨place, []⟩, keyAllowed)
  | c :: cs =>
    if isBreak c then skipGapsFrom inFlow (keyAllowed || !inFlow) false (place.after c) cs
    else if inComment || c == '#' then skipGapsFrom inFlow keyAllowed true (place.after c) cs
    else if c == ' ' || (c == '\t' && (inFlow || !keyAllowed)) ||
        (c == '\ufeff' && place.column == 0) then
      skipGapsFrom inFlow keyAllowed false (place.after c) cs
    else (⟨place, c :: cs⟩, keyAllowed)

namespace Lexer

def start (text : List Char) : Lexer :=
  { cursor := .start text, tokens := [], flow := 0, indents := [], key := none, outerKeys := [],
    keyAllowed := true }

def inFlow (lexer : Lexer) : Bool := lexer.flow != 0

def push (lexer : Lexer) (token : Token) : Lexer :=
  { lexer with tokens := token :: lexer.tokens }

/-- Puts a token where `position` tokens stand before it. -/
def insertAt (lexer : Lexer) (position : Nat) (token : Token) : Lexer :=
  let later := lexer.tokens.length - position
  { lexer with tokens := lexer.tokens.take later ++ token :: lexer.tokens.drop later }

/-- Goes on by as many characters. -/
def advance (lexer : Lexer) (count : Nat) : Lexer :=
  { lexer with cursor := lexer.cursor.forward count }

def skipGaps (lexer : Lexer) : Lexer :=
  let (cursor, keyAllowed) :=
    skipGapsFrom lexer.inFlow lexer.keyAllowed false lexer.cursor.toPosition lexer.cursor.rest
  { lexer with cursor, keyAllowed }

/-! ## Pending keys -/

/-- The place is too far back for a key. -/
def isStale (lexer : Lexer) (key : PendingKey) : Bool :=
  key.place.line < lexer.cursor.line || key.place.offset + 1024 < lexer.cursor.offset

/-- A key that has become stale is given up; none if it was required. -/
def freshKey? (lexer : Lexer) : Option PendingKey → Option (Option PendingKey)
  | none => some none
  | some key =>
    if lexer.isStale key then if key.required then none else some none else some (some key)

/-- Gives up all stale keys. -/
def dropStale? (lexer : Lexer) : Option Lexer := do
  let key ← lexer.freshKey? lexer.key
  let outerKeys ← lexer.outerKeys.mapM lexer.freshKey?
  some { lexer with key, outerKeys }

/-- Gives up the innermost pending key. -/
def dropKey? (lexer : Lexer) : Option Lexer :=
  match lexer.key with
  | some key => if key.required then none else some { lexer with key := none }
  | none => some lexer

/-- Remembers the present place, if a key may stand here. -/
def saveKey? (lexer : Lexer) : Option Lexer :=
  if lexer.keyAllowed then
    (lexer.dropKey?).map fun lexer =>
      { lexer with
        key := some {
          position := lexer.tokens.length, place := lexer.cursor.toPosition,
          required := !lexer.inFlow && lexer.indents.head? == some lexer.cursor.column } }
  else some lexer

/-! ## Indentation -/

/-- Opens a block at that column, if it is deeper than those open. The token goes in front of the
last tokens, so that `position` tokens stand before it. -/
def openBlock (lexer : Lexer) (column position : Nat) (token : Token) : Lexer :=
  let deeper := match lexer.indents with | i :: _ => i < column | [] => true
  if !lexer.inFlow && deeper then
    { lexer.insertAt position token with indents := column :: lexer.indents }
  else lexer

/-- Opens a block here. -/
def openBlockHere (lexer : Lexer) (token : Token) : Lexer :=
  lexer.openBlock lexer.cursor.column lexer.tokens.length token

/-- Closes the blocks whose column satisfies `deeper`. -/
def closeBlocks (lexer : Lexer) (deeper : Nat → Bool) : Lexer :=
  if lexer.inFlow then lexer
  else
    let closed := (lexer.indents.takeWhile deeper).length
    { lexer with
      tokens := List.replicate closed Token.blockEnd ++ lexer.tokens
      indents := lexer.indents.drop closed }

/-! ## Tokens -/

/-- A line that starts or ends a document. -/
def documentMark? (lexer : Lexer) (token : Token) : Option Lexer :=
  ((lexer.closeBlocks fun _ => true).dropKey?).map fun lexer =>
    { (lexer.push token).advance 3 with keyAllowed := false }

def directiveLine? (lexer : Lexer) : Option Lexer := do
  let lexer ← (lexer.closeBlocks fun _ => true).dropKey?
  let (token, cursor) ← directive? (lexer.cursor.forward 1)
  some { lexer.push token with cursor, keyAllowed := false }

def openFlow? (lexer : Lexer) (token : Token) : Option Lexer :=
  (lexer.saveKey?).map fun lexer =>
    { (lexer.push token).advance 1 with
      flow := lexer.flow + 1, key := none, outerKeys := lexer.key :: lexer.outerKeys,
      keyAllowed := true }

def closeFlow? (lexer : Lexer) (token : Token) : Option Lexer :=
  (lexer.dropKey?).map fun lexer =>
    let closed := { (lexer.push token).advance 1 with keyAllowed := false }
    match lexer.outerKeys with
    | key :: outerKeys => { closed with flow := lexer.flow - 1, key, outerKeys }
    | [] => closed

def flowEntry? (lexer : Lexer) : Option Lexer :=
  (lexer.dropKey?).map fun lexer =>
    { (lexer.push .flowEntry).advance 1 with keyAllowed := true }

/-- A dash. In a block it has to stand where a key may; in a flow collection it is refused
later. -/
def blockEntry? (lexer : Lexer) : Option Lexer :=
  if !lexer.inFlow && !lexer.keyAllowed then none
  else
    ((lexer.openBlockHere .blockSequenceStart).dropKey?).map fun lexer =>
      { (lexer.push .blockEntry).advance 1 with keyAllowed := true }

/-- A question mark in front of a key. -/
def explicitKey? (lexer : Lexer) : Option Lexer :=
  if !lexer.inFlow && !lexer.keyAllowed then none
  else
    ((lexer.openBlockHere .blockMappingStart).dropKey?).map fun lexer =>
      { (lexer.push .key).advance 1 with keyAllowed := !lexer.inFlow }

/-- A colon. It makes the pending key a key, and opens a block at its column. Without one it
follows a key that was announced. -/
def value? (lexer : Lexer) : Option Lexer :=
  match lexer.key with
  | some key =>
    let lexer := lexer.insertAt key.position .key
    let lexer := lexer.openBlock key.place.column key.position .blockMappingStart
    some { (lexer.push .value).advance 1 with key := none, keyAllowed := false }
  | none =>
    if !lexer.inFlow && !lexer.keyAllowed then none
    else
      let lexer := lexer.openBlockHere .blockMappingStart
      some { (lexer.push .value).advance 1 with keyAllowed := !lexer.inFlow }

/-- An anchor or an alias. -/
def reference? (lexer : Lexer) (token : String → Token) : Option Lexer := do
  let lexer ← lexer.saveKey?
  let (name, cursor) ← name? (lexer.cursor.forward 1)
  some { lexer.push (token name) with cursor, keyAllowed := false }

def tagToken? (lexer : Lexer) : Option Lexer := do
  let lexer ← lexer.saveKey?
  let (token, cursor) ← tag? lexer.inFlow lexer.cursor
  some { lexer.push token with cursor, keyAllowed := false }

def blockScalar? (lexer : Lexer) (style : Style) : Option Lexer := do
  let lexer ← lexer.dropKey?
  let (text, cursor) ←
    block? (style == .folded) lexer.indents.head? (lexer.cursor.forward 1)
  some { lexer.push (.scalar style (String.ofList text)) with cursor, keyAllowed := true }

def quotedScalar? (lexer : Lexer) (read : Cursor → Option (List Char × Cursor)) :
    Option Lexer := do
  let lexer ← lexer.saveKey?
  let (text, cursor) ← read (lexer.cursor.forward 1)
  some { lexer.push (.scalar .quoted (String.ofList text)) with cursor, keyAllowed := false }

/-- A plain scalar. Behind one that ended with its line a key may stand. -/
def plainScalar? (lexer : Lexer) : Option Lexer := do
  let lexer ← lexer.saveKey?
  let indent := match lexer.indents with | i :: _ => i + 1 | [] => 0
  let plain ← plain? lexer.inFlow indent lexer.cursor
  some { lexer.push (.scalar .plain (String.ofList plain.text)) with
    cursor := plain.cursor, keyAllowed := plain.gap.isFolded }

/-- The end of the text closes all blocks. -/
def finish? (lexer : Lexer) : Option Lexer :=
  (lexer.closeBlocks fun _ => true).dropKey?

/-- The token that the next characters begin. -/
def token? (lexer : Lexer) : Option Lexer :=
  let rest := lexer.cursor.rest
  let atStart := lexer.cursor.column == 0
  match rest with
  | [] => lexer.finish?
  | c :: cs =>
    if atStart && c == '%' then lexer.directiveLine?
    else if atStart && isDocumentMark rest then
      lexer.documentMark? (if c == '-' then .documentStart else .documentEnd)
    else if c == '[' then lexer.openFlow? .flowSequenceStart
    else if c == '\x7b' then lexer.openFlow? .flowMappingStart
    else if c == ']' then lexer.closeFlow? .flowSequenceEnd
    else if c == '\x7d' then lexer.closeFlow? .flowMappingEnd
    else if c == ',' then lexer.flowEntry?
    else if c == '-' && atGap cs then lexer.blockEntry?
    else if c == '?' && (lexer.inFlow || atGap cs) then lexer.explicitKey?
    else if c == ':' && (lexer.inFlow || atGap cs) then lexer.value?
    else if c == '*' then lexer.reference? .alias
    else if c == '&' then lexer.reference? .anchor
    else if c == '!' then lexer.tagToken?
    else if c == '|' && !lexer.inFlow then lexer.blockScalar? .literal
    else if c == '>' && !lexer.inFlow then lexer.blockScalar? .folded
    else if c == '\'' then lexer.quotedScalar? singleQuoted?
    else if c == '"' then lexer.quotedScalar? doubleQuoted?
    else if startsPlain lexer.inFlow rest then lexer.plainScalar?
    else none

/-- Goes on to the next token. -/
def step? (lexer : Lexer) : Option Lexer := do
  let lexer ← lexer.skipGaps.dropStale?
  (lexer.closeBlocks (lexer.cursor.column < ·)).token?

/-- Reads to the end of the text. Every step but the last consumes characters, so their number
bounds the steps. -/
def run? : Nat → Lexer → Option Lexer
  | 0, _ => none
  | fuel + 1, lexer =>
    match lexer.step? with
    | none => none
    | some next => if next.cursor.rest.isEmpty then next.finish? else run? fuel next

end Lexer

def tokens? (text : List Char) : Option (List Token) :=
  ((Lexer.start text).run? (text.length + 1)).map (·.tokens.reverse)

end Yaml
end ScoringTree
