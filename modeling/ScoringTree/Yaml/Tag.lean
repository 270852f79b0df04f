/-!
# ScoringTree.Yaml.Tag

Tags of nodes. A tag is a run of bytes rather than text, because escapes can write any bytes, and
it ends at the first byte that is zero.

* `Tag.core`      — the tags that say how a scalar is to be read.
* `Tag.variant?`  — the name in a tag that picks a variant.
-/

namespace ScoringTree
namespace Yaml

structure Tag where
  bytes : List UInt8
  deriving DecidableEq, Repr

namespace Tag

/-- The tag of those bytes, up to the first zero. -/
def ofBytes (bytes : List UInt8) : Tag := ⟨bytes.takeWhile (· != 0)⟩

def ofText (text : String) : Tag := .ofBytes text.toUTF8.toList

instance : Append Tag := ⟨fun a b => ⟨a.bytes ++ b.bytes⟩⟩

def isEmpty (tag : Tag) : Bool := tag.bytes.isEmpty

/-- The tag that is nothing but an exclamation mark. -/
def mark : Tag := .ofText "!"

/-- What the core tags begin with. -/
def coreLead : Tag := .ofText "tag:yaml.org,2002:"

/-- A tag that says how a scalar is to be read. -/
def core (name : String) : Tag := coreLead ++ .ofText name

/-- The tag begins with an exclamation mark. -/
def isLocal (tag : Tag) : Bool := mark.bytes.isPrefixOf tag.bytes

/-- The name in a local tag: it picks a variant and is no type. The lone mark is a name itself, and
bytes that are no text name nothing. -/
def variant? (tag : Tag) : Option String :=
  if !tag.isLocal then none
  else if tag = mark then some "!"
  else String.fromUTF8? ⟨tag.bytes.tail.toArray⟩

end Tag

end Yaml
end ScoringTree
