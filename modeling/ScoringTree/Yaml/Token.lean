import ScoringTree.Yaml.Tag

/-!
# ScoringTree.Yaml.Token

The tokens of YAML text. Indentation has become tokens that open and close blocks, and every key
has a token in front.
-/

namespace ScoringTree
namespace Yaml

/-- How a scalar is written. -/
inductive Style where
  | plain
  | quoted
  | literal
  | folded
  deriving DecidableEq, Repr

inductive Token where
  | version (major minor : Nat)
  /-- A directive that lets a handle stand for the beginning of tags. -/
  | handle (name : String) (lead : Tag)
  | documentStart
  | documentEnd
  | blockSequenceStart
  | blockMappingStart
  | blockEnd
  | flowSequenceStart
  | flowSequenceEnd
  | flowMappingStart
  | flowMappingEnd
  | blockEntry
  | flowEntry
  | key
  | value
  | alias (name : String)
  | anchor (name : String)
  | tag (handle : String) (suffix : Tag)
  | scalar (style : Style) (text : String)
  deriving DecidableEq, Repr

end Yaml
end ScoringTree
