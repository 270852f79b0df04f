import ScoringTree.Predicate.Basic
import ScoringTree.Readable

/-!
# ScoringTree.Predicate.Reading

Predicates read from their document form.

The alternatives are tried in order and the first that fits wins: a map with a well-formed
`simple`, one with a well-formed `simple_set`, one with a well-formed `compound`, a constant word,
a boolean.
-/

namespace ScoringTree
namespace Predicate

/-- The body of the map entry called `name`. -/
def bodyOf? (name : String) (d : Datum) : Option Datum :=
  match Datum.mapSlots? [name] d with
  | some [some body] => some body
  | _ => none

def simple? (d : Datum) : Option Predicate :=
  match (bodyOf? "simple" d).bind (Datum.slots? ["field", "operator", "value"]) with
  | some [some field, some operator, value] =>
    match field.text?, operator.pick? (Comparison.ordered.map fun c => ([c.name], c)),
        (value.getD .null).optionalText? with
    | some f, some o, some v => some (.simple f o v)
    | _, _, _ => none
  | _ => none

def set? (d : Datum) : Option Predicate :=
  match (bodyOf? "simple_set" d).bind (Datum.slots? ["field", "operator", "values"]) with
  | some [some field, some operator, some values] =>
    match field.text?, operator.pick? (Membership.ordered.map fun m => ([m.name], m)),
        values.items?.bind (·.mapM Datum.anyText?) with
    | some f, some o, some vs => some (.set f o vs)
    | _, _, _ => none
  | _ => none

/-- The connective and the operands, still to be read. -/
def compoundParts? (d : Datum) : Option (Connective × List Datum) :=
  match (bodyOf? "compound" d).bind (Datum.slots? ["operator", "predicates"]) with
  | some [some operator, some operands] =>
    match operator.pick? (Connective.ordered.map fun c => ([c.name], c)), operands.items? with
    | some o, some items => some (o, items)
    | _, _ => none
  | _ => none

def constant? : Datum → Option Predicate
  | .bool true => some .always
  | .bool false => some .never
  | d => d.pick? [(["true", "always"], .always), (["false", "never"], .never)]

/-- Reads a predicate that nests at most as deep as the first argument. -/
def readWithin : Nat → Datum → Option Predicate
  | 0, _ => none
  | depth + 1, d =>
    match simple? d with
    | some p => some p
    | none =>
      match set? d with
      | some p => some p
      | none =>
        match (compoundParts? d).bind fun parts =>
            (parts.2.mapM (readWithin depth)).map (.compound parts.1) with
        | some p => some p
        | none => constant? d

/-- The predicate a datum stands for. -/
def read? (d : Datum) : Option Predicate := readWithin (d.depth + 1) d

end Predicate
end ScoringTree
