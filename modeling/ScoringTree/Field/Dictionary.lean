import ScoringTree.Field.DataType
import ScoringTree.Field.Expression

/-!
# ScoringTree.Field.Dictionary

The fields a model declares, in three layers: data fields come with the records, derived fields
are computed for all models, local fields for one model only.

* `DataField`, `DerivedField`  — one declaration; types are kept as they are written.
* `Dictionaries`               — the three layers of one model.
* `FieldTypes`                 — the type of every declared field, later layers over earlier ones.
-/

namespace ScoringTree

structure DataField where
  name : String
  dataType : String
  /-- Labels of a categorical field. -/
  values : List String
  deriving DecidableEq, Repr

structure DerivedField where
  name : String
  dataType : String
  expression : Expression

namespace DerivedField

/-- The fields a definition reads, each once, in the order of first use. -/
def dependencies (field : DerivedField) : List String := field.expression.fields

end DerivedField

/-- The three layers of declarations, from outer to inner. -/
structure Dictionaries where
  data : List DataField
  derived : List DerivedField
  locals : List DerivedField

/-- Types by field name; an entry hides those behind it. -/
structure FieldTypes where
  entries : List (String × FieldType)
  deriving DecidableEq, Repr

namespace FieldTypes

def empty : FieldTypes := ⟨[]⟩

def insert (types : FieldTypes) (name : String) (type : FieldType) : FieldTypes :=
  ⟨(name, type) :: types.entries⟩

def get? (types : FieldTypes) (name : String) : Option FieldType := types.entries.lookup name

/-- Adds declarations in order; stops at the first type that is not known, and names its field. -/
def declare (types : FieldTypes) :
    List (String × String) → Except (String × UnknownType) FieldTypes
  | [] => .ok types
  | (name, declared) :: rest =>
    match FieldType.read declared with
    | .ok type => (types.insert name type).declare rest
    | .error unknown => .error (name, unknown)

end FieldTypes

namespace Dictionaries

/-- All declarations as pairs of name and declared type, layer after layer. -/
def declarations (layers : Dictionaries) : List (String × String) :=
  layers.data.map (fun f => (f.name, f.dataType))
    ++ layers.derived.map (fun f => (f.name, f.dataType))
    ++ layers.locals.map (fun f => (f.name, f.dataType))

def fieldTypes (layers : Dictionaries) : Except (String × UnknownType) FieldTypes :=
  FieldTypes.empty.declare layers.declarations

end Dictionaries

end ScoringTree
