import ScoringTree.Text.Blank
import ScoringTree.Text.Lowercase

/-!
# ScoringTree.Field.DataType

The type of a field, and the words a document may declare it with.

* `FieldType`       — numeric, categorical, text or boolean.
* `FieldType.read`  — a declared type, read without regard to case and outer blanks.
-/

namespace ScoringTree

inductive FieldType where
  | numeric
  | categorical
  | text
  | boolean
  deriving DecidableEq, Repr

/-- A declared type that is none of the known words, in lower case. -/
structure UnknownType where
  word : String
  deriving DecidableEq, Repr

namespace UnknownType

def message (unknown : UnknownType) : String :=
  "unrecognized data type '" ++ unknown.word ++ "'"

end UnknownType

namespace FieldType

def name : FieldType → String
  | .numeric => "numeric"
  | .categorical => "categorical"
  | .text => "text"
  | .boolean => "boolean"

/-- The words for each type, in lower case. -/
def ofWord? (word : String) : Option FieldType :=
  if ["numeric", "integer", "float", "double", "continuous"].contains word then some .numeric
  else if ["categorical", "ordinal"].contains word then some .categorical
  else if ["text", "string"].contains word then some .text
  else if word == "boolean" then some .boolean
  else none

def read (declared : String) : Except UnknownType FieldType :=
  let word := Text.lowercase (Text.trim declared)
  match ofWord? word with
  | some type => .ok type
  | none => .error ⟨word⟩

end FieldType

end ScoringTree
