import ScoringTree.Yaml.Scalar.Quoted
import ScoringTree.Yaml.Token

/-!
# ScoringTree.Yaml.Property

What may stand in front of a node, and the directives in front of a document.

* `name?`       — the name of an anchor or an alias.
* `tag?`        — a tag: a handle and what follows it.
* `directive?`  — the version of a document, or the meaning of a handle.
-/

namespace ScoringTree
namespace Yaml

/-- The characters of names and handles. -/
def isNameChar (c : Char) : Bool := c.isAlphanum || c == '_' || c == '-'

/-- The characters that may stand right behind the name of an anchor. -/
def endsName : List Char → Bool
  | [] => true
  | c :: _ =>
    isGap c || c == '?' || c == ':' || c == ',' || c == ']' || c == '\x7d' || c == '%' ||
      c == '@' || c == '\x60'

/-- The name behind the sign of an anchor or alias. -/
def name? (cursor : Cursor) : Option (String × Cursor) :=
  let name := cursor.span isNameChar
  let after := cursor.skipWhile isNameChar
  if name.isEmpty || !endsName after.rest then none else some (String.ofList name, after)

/-! ## Tags -/

/-- A handle: an exclamation mark, a name, and a second mark if there is one. -/
def handleText (cursor : Cursor) : List Char × Cursor :=
  let name := (cursor.forward 1).span isNameChar
  let after := (cursor.forward 1).skipWhile isNameChar
  match after.rest with
  | '!' :: _ => ('!' :: (name ++ ['!']), after.forward 1)
  | _ => ('!' :: name, after)

/-- The characters of tags; in some places flow marks are among them. -/
def isTagChar (withMarks : Bool) (c : Char) : Bool :=
  isNameChar c || c == ';' || c == '/' || c == '?' || c == ':' || c == '@' || c == '&' ||
    c == '=' || c == '+' || c == '$' || c == '.' || c == '%' || c == '!' || c == '~' ||
    c == '*' || c == '\'' || c == '(' || c == ')' ||
    (withMarks && (c == ',' || c == '[' || c == ']'))

/-- How many bytes the encoding of a character has, by the first of them. -/
def encodingLength? (byte : Nat) : Option Nat :=
  if byte < 0x80 then some 1
  else if 0xc0 ≤ byte && byte < 0xe0 then some 2
  else if 0xe0 ≤ byte && byte < 0xf0 then some 3
  else if 0xf0 ≤ byte && byte < 0xf8 then some 4
  else none

/-- The byte of an ASCII character. -/
def asciiByte (c : Char) : UInt8 := UInt8.ofNat c.toNat

/-- The bytes that the characters of a tag write. A byte may be written as a percent sign and two
digits; as long as `left` bytes of a character are to come, it has to be. -/
def tagBytes? (left : Nat) : List Char → Option (List UInt8)
  | [] => if left == 0 then some [] else none
  | '%' :: a :: b :: cs =>
    match hexValue? a, hexValue? b with
    | some high, some low =>
      let byte := high * 16 + low
      let left? :=
        if left == 0 then (encodingLength? byte).map (· - 1)
        else if 0x80 ≤ byte && byte < 0xc0 then some (left - 1)
        else none
      match left? with
      | some left => (tagBytes? left cs).map (UInt8.ofNat byte :: ·)
      | none => none
    | _, _ => none
  | c :: cs => if left == 0 && c != '%' then (tagBytes? 0 cs).map (asciiByte c :: ·) else none

/-- The bytes of a tag ahead. -/
def tagText? (withMarks : Bool) (cursor : Cursor) : Option (List UInt8 × Cursor) :=
  (tagBytes? 0 (cursor.span (isTagChar withMarks))).map fun bytes =>
    (bytes, cursor.skipWhile (isTagChar withMarks))

/-- A tag in full, between angle brackets; the cursor is behind the first of them. -/
def fullTag? (cursor : Cursor) : Option (Token × Cursor) :=
  match tagText? true cursor with
  | some (bytes, after) =>
    match after.rest with
    | '>' :: _ => if bytes.isEmpty then none else some (.tag "" (.ofBytes bytes), after.forward 1)
    | _ => none
  | none => none

/-- A tag with a handle. A lone mark is a tag of its own. -/
def shortTag? (cursor : Cursor) : Option (Token × Cursor) :=
  let (handle, after) := handleText cursor
  match tagText? false after with
  | none => none
  | some (bytes, last) =>
    if handle.length > 1 && handle.getLast? == some '!' then
      if bytes.isEmpty then none
      else some (.tag (String.ofList handle) (.ofBytes bytes), last)
    else
      let suffix := Tag.ofBytes ((handle.drop 1).map asciiByte ++ bytes)
      if suffix.isEmpty then some (.tag "" .mark, last) else some (.tag "!" suffix, last)

/-- A tag, from its mark on. A gap follows, or a comma in a flow collection. -/
def tag? (inFlow : Bool) (cursor : Cursor) : Option (Token × Cursor) :=
  let read :=
    match cursor.rest with
    | _ :: '<' :: _ => fullTag? (cursor.forward 2)
    | _ => shortTag? cursor
  match read with
  | some (token, after) =>
    if atGap after.rest || (inFlow && after.rest.head? == some ',') then some (token, after)
    else none
  | none => none

/-! ## Directives -/

/-- A number of at most nine digits. -/
def versionNumber? (cursor : Cursor) : Option (Nat × Cursor) :=
  let digits := cursor.span Char.isDigit
  if digits.isEmpty || digits.length > 9 then none
  else
    some (digits.foldl (fun n d => n * 10 + (d.toNat - 48)) 0, cursor.skipWhile Char.isDigit)

def versionDirective? (cursor : Cursor) : Option (Token × Cursor) := do
  let (major, cursor) ← versionNumber? (cursor.skipWhile isBlank)
  match cursor.rest with
  | '.' :: _ => do
    let (minor, cursor) ← versionNumber? (cursor.forward 1)
    some (.version major minor, cursor)
  | _ => none

/-- The handle of a directive is a lone mark or has a mark at either end. -/
def handleDirective? (cursor : Cursor) : Option (Token × Cursor) := do
  let cursor := cursor.skipWhile isBlank
  if cursor.rest.head? != some '!' then none
  let (handle, cursor) := handleText cursor
  if handle.getLast? != some '!' then none
  if !(cursor.rest.head?.map isBlank == some true) then none
  let (lead, cursor) ← tagText? true (cursor.skipWhile isBlank)
  if lead.isEmpty || !atGap cursor.rest then none
  some (.handle (String.ofList handle) (.ofBytes lead), cursor)

/-- A directive, from behind its percent sign to the end of its line. -/
def directive? (cursor : Cursor) : Option (Token × Cursor) := do
  let name := cursor.span isNameChar
  let cursor := cursor.skipWhile isNameChar
  if !atGap cursor.rest then none
  let (token, cursor) ←
    match String.ofList name with
    | "YAML" => versionDirective? cursor
    | "TAG" => handleDirective? cursor
    | _ => none
  let cursor ← cursor.endLine?
  some (token, cursor)

end Yaml
end ScoringTree
