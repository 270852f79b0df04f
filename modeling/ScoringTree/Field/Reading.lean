import ScoringTree.Field.Dictionary
import ScoringTree.Readable

/-!
# ScoringTree.Field.Reading

Expressions and dictionary entries read from and written to documents.
-/

namespace ScoringTree

namespace Expression

/-- Reads an expression that nests at most as deep as the first argument. A field reference is
tried first, then a constant, then an application. -/
def readWithin : Nat → Datum → Option Expression
  | 0, _ => none
  | depth + 1, d =>
    match Datum.mapSlots? ["field"] d with
    | some [some (.text name)] => some (.field name)
    | _ =>
      match (Datum.mapSlots? ["constant"] d).bind fun slots =>
          match slots with
          | [some value] => value.toJson?
          | _ => none with
      | some value => some (.constant value)
      | none =>
        match Datum.mapSlots? ["apply", "arguments"] d with
        | some [some (.text function), none] => some (.apply function [])
        | some [some (.text function), some arguments] =>
          (arguments.items?.bind (·.mapM (readWithin depth))).map (.apply function)
        | _ => none

/-- The expression a datum stands for. -/
def read? (d : Datum) : Option Expression := readWithin (d.depth + 1) d

/-- The expression a value of a document stands for. -/
def ofValue? {ν : Type} {m : Type → Type} [Monad m] [Fallible m] [Readable ν m] (v : ν) :
    m Expression := do
  Fallible.ofOption (read? (← Readable.datum? v))

end Expression

open Readable

namespace DataField

variable {ν : Type} {m : Type → Type} [Monad m] [Fallible m] [Readable ν m]

def read? (v : ν) : m DataField := do
  match ← slots? ["name", "data_type", "values"] v with
  | [name, dataType, values] =>
    let name ← required text? name
    let dataType ← required text? dataType
    let values ← defaulted [] (list text?) values
    return { name, dataType, values }
  | _ => Fallible.fail

/-- Values are written only if there are any. -/
def toJson (field : DataField) : Json :=
  .object ([("name", .string field.name), ("data_type", .string field.dataType)]
    ++ if field.values.isEmpty then [] else [("values", .array (field.values.map .string))])

end DataField

namespace DerivedField

variable {ν : Type} {m : Type → Type} [Monad m] [Fallible m] [Readable ν m]

def read? (v : ν) : m DerivedField := do
  match ← slots? ["name", "data_type", "expression"] v with
  | [name, dataType, expression] =>
    let name ← required text? name
    let dataType ← required text? dataType
    let expression ← required Expression.ofValue? expression
    return { name, dataType, expression }
  | _ => Fallible.fail

def toJson (field : DerivedField) : Json :=
  .object [("name", .string field.name), ("data_type", .string field.dataType),
    ("expression", field.expression.toJson)]

end DerivedField

end ScoringTree
