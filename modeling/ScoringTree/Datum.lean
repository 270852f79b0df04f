import ScoringTree.Json.Value

/-!
# ScoringTree.Datum

Self-describing data as a document holds it: maps keep the order and the repetitions of the
text, and keys may be any datum.

* `Datum`            — the data.
* `Datum.toJson?`    — the JSON value of a datum, keys sorted, the last of equal keys kept.
* `Datum.readable`   — nothing in the datum is unreadable.
* `Datum.depth`      — how deep lists and maps nest.
-/

namespace ScoringTree

inductive Datum where
  | null
  | bool (b : Bool)
  | number (n : Quantity)
  | text (s : String)
  | seq (items : List Datum)
  | map (entries : List (Datum × Datum))
  /-- Well-formed, but outside what a value can hold: a number too large for a float, text with half
  of a surrogate pair, or a list or map nested too deep. It may be skipped but not read. -/
  | unreadable

namespace Datum

mutual

/-- A float that is no number is `null`; a map needs text keys. -/
def toJson? : Datum → Option Json
  | .null => some .null
  | .bool b => some (.bool b)
  | .number (.integer z) => some (.number (.integer z))
  | .number (.float x) => some (if Number.isFinite x then .number (.float x) else .null)
  | .text s => some (.string s)
  | .seq items => (itemsToJson? items).map .array
  | .map entries => (entriesToJson? [] entries).map .object
  | .unreadable => none

def itemsToJson? : List Datum → Option (List Json)
  | [] => some []
  | d :: ds =>
    match toJson? d, itemsToJson? ds with
    | some v, some vs => some (v :: vs)
    | _, _ => none

/-- Entries are put into `members` one after the other. -/
def entriesToJson? (members : List (String × Json)) :
    List (Datum × Datum) → Option (List (String × Json))
  | [] => some members
  | (.text key, d) :: rest =>
    match toJson? d with
    | some v => entriesToJson? (Json.insert key v members) rest
    | none => none
  | _ :: _ => none

end

mutual

def readable : Datum → Bool
  | .seq items => itemsReadable items
  | .map entries => entriesReadable entries
  | .unreadable => false
  | _ => true

def itemsReadable : List Datum → Bool
  | [] => true
  | d :: ds => readable d && itemsReadable ds

def entriesReadable : List (Datum × Datum) → Bool
  | [] => true
  | (k, v) :: rest => readable k && readable v && entriesReadable rest

end

mutual

def depth : Datum → Nat
  | .seq items => itemsDepth items + 1
  | .map entries => entriesDepth entries + 1
  | _ => 0

def itemsDepth : List Datum → Nat
  | [] => 0
  | d :: ds => max (depth d) (itemsDepth ds)

def entriesDepth : List (Datum × Datum) → Nat
  | [] => 0
  | (k, v) :: rest => max (max (depth k) (depth v)) (entriesDepth rest)

end

mutual

/-- The datum that a JSON value is written as. -/
def ofJson : Json → Datum
  | .null => .null
  | .bool b => .bool b
  | .number n => .number n
  | .string s => .text s
  | .array items => .seq (ofItems items)
  | .object members => .map (ofMembers members)

def ofItems : List Json → List Datum
  | [] => []
  | v :: vs => ofJson v :: ofItems vs

def ofMembers : List (String × Json) → List (Datum × Datum)
  | [] => []
  | (k, v) :: rest => (.text k, ofJson v) :: ofMembers rest

end

end Datum

end ScoringTree
