import ScoringTree.Readable
import ScoringTree.Yaml.Grammar
import ScoringTree.Yaml.Scalar.Meaning

/-!
# ScoringTree.Yaml.View

Typed reading of YAML.

Where text is wanted, any scalar is taken as it is written; where any value may stand, a plain
scalar means what it looks like. A list or a map may be left out. Collections nest at most 128
deep, with aliases written out. Every alias that is read takes one from a budget of a hundred times
as many as the document has parts; those in entries that are passed over cost nothing.

* `Visit`         — reading on a budget of aliases.
* `View`          — a node with the nodes that aliases stand for.
* `View.datum?`   — the node as data, keys and all.
* `View.json?`    — the node as a JSON value, keys taken as text.
* `read`          — what a text holds.
-/

namespace ScoringTree
namespace Yaml

/-- Reading that may follow as many aliases as the state says. -/
abbrev Visit := StateT Nat Option

namespace Visit

/-- Follows one alias. -/
def follow : Visit Unit
  | 0 => none
  | left + 1 => some ((), left)

end Visit

structure View where
  /-- The nodes that carry an anchor, the last first. -/
  marked : List (Nat × Node)
  /-- How deep collections may still nest. -/
  depth : Nat
  node : Node

namespace View

/-- The node itself, or the one that it is an alias of. -/
def target (view : View) : Visit Node :=
  match view.node with
  | .alias number => do
    Visit.follow
    return (view.marked.lookup number).getD .empty
  | node => pure node

/-- The view of a part. -/
def part (view : View) (node : Node) : View := { view with depth := view.depth - 1, node }

end View

/-! ## Scalars -/

/-- The value of a scalar where any value may stand. A local tag that names no variant says
nothing about a plain scalar. -/
def scalarDatum? (tag : Option Tag) (style : Style) (text : String) : Option Datum :=
  match tag with
  | none => if style = .plain then plainDatum? text else some (.text text)
  | some t =>
    if t.variant?.isSome then none
    else if t = .core "bool" then (flag? text).map .bool
    else if t = .core "int" then
      match Numeral.ofText text with
      | .held z => some (.number (.integer z))
      | _ => none
    else if t = .core "float" then (float? text).map fun x => .number (.float x)
    else if t = .core "null" then if isNull text then some .null else none
    else if t.isLocal && style = .plain then plainDatum? text
    else some (.text text)

/-- A scalar that stands for an absent value; none if it claims to and does not. -/
def isAbsent? (tag : Option Tag) (style : Style) (text : String) : Option Bool :=
  if style ≠ .plain then some false
  else
    match tag with
    | none => some (text.isEmpty || isNull text)
    | some t => if t = .core "null" then if isNull text then some true else none else some false

/-- A word of a choice. A tag that names a variant is the word itself. -/
def scalarWord? (tag : Option Tag) (style : Style) (text : String) : Option String :=
  match tag.bind Tag.variant? with
  | none => some text
  | some word => if style = .plain ∧ (text.isEmpty ∨ isNull text) then some word else none

def scalarFloat? (tag : Option Tag) (style : Style) (text : String) : Option Float :=
  if style = .plain ∨ (style = .literal ∧ tag = some (.core "float")) then float? text else none

namespace View

open Fallible

/-! ## Collections -/

/-- The parts of a list. -/
def items? (view : View) : Visit (List View) := do
  match ← view.target with
  | .scalar _ .plain "" => return []
  | .sequence _ items => if view.depth = 0 then fail else return items.map view.part
  | _ => fail

/-- The parts of a map. -/
def entries? (view : View) : Visit (List (View × View)) := do
  match ← view.target with
  | .scalar _ .plain "" => return []
  | .mapping _ entries =>
    if view.depth = 0 then fail
    else return entries.map fun e => (view.part e.1, view.part e.2)
  | _ => fail

/-- Any scalar as it is written. -/
def text? (view : View) : Visit String := do
  match ← view.target with
  | .scalar _ _ text => return text
  | _ => fail

/-- Puts the entries of a map into the slots of their names. Entries with other names are skipped;
a name that comes twice is refused. -/
def fillSlots (names : List String) (slots : List (Option View)) :
    List (View × View) → Visit (List (Option View))
  | [] => return slots
  | (key, value) :: rest => do
    let name ← key.text?
    match names.idxOf? name with
    | none => fillSlots names slots rest
    | some i =>
      match slots[i]? with
      | some none => fillSlots names (slots.set i (some value)) rest
      | _ => fail

/-- The values under the given names. -/
def slots? (names : List String) (view : View) : Visit (List (Option View)) := do
  fillSlots names (names.map fun _ => none) (← view.entries?)

/-! ## Any value -/

/-- The data of a node, at most as deep as the first argument says. -/
def datumWithin (marked : List (Nat × Node)) : Nat → Node → Visit Datum
  | fuel, node => do
    match ← (View.mk marked 0 node).target with
    | .scalar properties style text => ofOption (scalarDatum? properties.tag style text)
    | .sequence properties items =>
      if (properties.tag.bind Tag.variant?).isSome then fail
      else
        match fuel with
        | 0 => fail
        | depth + 1 => return .seq (← items.mapM (datumWithin marked depth))
    | .mapping properties entries =>
      if (properties.tag.bind Tag.variant?).isSome then fail
      else
        match fuel with
        | 0 => fail
        | depth + 1 =>
          return .map (← entries.mapM fun (e : Node × Node) => do
            let key ← datumWithin marked depth e.1
            let value ← datumWithin marked depth e.2
            return (key, value))
    | .alias _ => fail

def datum? (view : View) : Visit Datum := datumWithin view.marked view.depth view.node

/-- The JSON value of a node, at most as deep as the first argument says. -/
def jsonWithin (marked : List (Nat × Node)) : Nat → Node → Visit Json
  | fuel, node => do
    match ← (View.mk marked 0 node).target with
    | .scalar properties style text =>
      ofOption ((scalarDatum? properties.tag style text).bind Datum.toJson?)
    | .sequence properties items =>
      if (properties.tag.bind Tag.variant?).isSome then fail
      else
        match fuel with
        | 0 => fail
        | depth + 1 => return .array (← items.mapM (jsonWithin marked depth))
    | .mapping properties entries =>
      if (properties.tag.bind Tag.variant?).isSome then fail
      else
        match fuel with
        | 0 => fail
        | depth + 1 =>
          return .object (← entries.foldlM (fun members (e : Node × Node) => do
            let key ← (View.mk marked 0 e.1).text?
            let value ← jsonWithin marked depth e.2
            return Json.insert key value members) [])
    | .alias _ => fail

def json? (view : View) : Visit Json := jsonWithin view.marked view.depth view.node

/-! ## Typed values -/

/-- The view that is given back stands on the node itself, so its alias is not followed again. -/
def present? (view : View) : Visit (Option View) := do
  let node ← view.target
  match node with
  | .scalar properties style text =>
    if ← ofOption (isAbsent? properties.tag style text) then return none
    else return some { view with node }
  | _ => return some { view with node }

def float? (view : View) : Visit Float := do
  match ← view.target with
  | .scalar properties style text => ofOption (scalarFloat? properties.tag style text)
  | _ => fail

def word? (view : View) : Visit String := do
  match ← view.target with
  | .scalar properties style text => ofOption (scalarWord? properties.tag style text)
  | _ => fail

end View

instance : Readable View Visit where
  text? := View.text?
  present? := View.present?
  float? := View.float?
  word? := View.word?
  items? := View.items?
  slots? := View.slots?
  json? := View.json?
  datum? := View.datum?

/-! ## Documents -/

/-- Collections nest at most this deep. -/
def depthLimit : Nat := 128

/-- How many aliases may be followed in a document. -/
def aliasLimit (root : Node) : Nat := 100 * root.size

/-- What `read` makes of the document that a text holds; none if it holds none or a faulty one. -/
def read {α : Type} (read : View → Visit α) (text : String) : Option α :=
  (document? text).bind fun root =>
    (read ⟨root.marked.reverse, depthLimit, root⟩).run' (aliasLimit root)

end Yaml
end ScoringTree
