import ScoringTree.Datum

/-!
# ScoringTree.Readable

Typed reading of documents.

A document arrives as a tree of type `ν`, and the formats differ in what they accept where a
certain kind of value is wanted. `Readable ν m` collects these decisions, so that the reading of a
model is written once. The parts of a document that are tried in several ways, predicates and
expressions, are first turned into a datum and read from there.

* `Datum.slots?`  — the values of a map by name, or of a list by position.
* `Datum.pick?`   — one of several words.
* `Fallible`      — monads in which reading can fail.
* `Readable`      — what a format accepts; the instance for `Datum` is that of JSON.
-/

namespace ScoringTree

namespace Datum

/-- Where the value of a key belongs. A key is a word or the position of one; `some none` means
that the key is not among the names, `none` that it can be no key at all. -/
def keySlot? (names : List String) : Datum → Option (Option Nat)
  | .text s => some (names.idxOf? s)
  | .number (.integer z) =>
    if z < 0 then none
    else some (if z.toNat < names.length then some z.toNat else none)
  | _ => none

/-- Puts the entries of a map into the slots of their names. Entries with other names are
skipped; a name that comes twice is refused. -/
def fillSlots (names : List String) (slots : List (Option Datum)) :
    List (Datum × Datum) → Option (List (Option Datum))
  | [] => some slots
  | (key, value) :: rest =>
    match keySlot? names key with
    | none => none
    | some none => fillSlots names slots rest
    | some (some i) =>
      match slots[i]? with
      | some none => fillSlots names (slots.set i (some value)) rest
      | _ => none

/-- The values of a map under the given names. -/
def mapSlots? (names : List String) : Datum → Option (List (Option Datum))
  | .map entries => fillSlots names (names.map fun _ => none) entries
  | _ => none

/-- The values of a map under the given names, or of a list that gives them in this order and may
leave out the last ones. -/
def slots? (names : List String) : Datum → Option (List (Option Datum))
  | .seq items =>
    if items.length ≤ names.length then
      some (items.map some ++ List.replicate (names.length - items.length) none)
    else none
  | d => mapSlots? names d

/-- The option a word names; a map that gives the word, or its position, the value `null` counts
as the word. -/
def pick? {α : Type} (options : List (List String × α)) : Datum → Option α
  | .text s => (options.find? fun o => o.1.contains s).map (·.2)
  | .map [(.text s, .null)] => (options.find? fun o => o.1.contains s).map (·.2)
  | .map [(.number (.integer z), .null)] =>
    if z < 0 then none else (options[z.toNat]?).map (·.2)
  | _ => none

def text? : Datum → Option String
  | .text s => some s
  | _ => none

def items? : Datum → Option (List Datum)
  | .seq items => some items
  | _ => none

/-- Any value as text; `none` only if it has no JSON value. -/
def anyText? (d : Datum) : Option String := d.toJson?.map Json.asText

/-- Any value as text, where `null` means that there is none. -/
def optionalText? : Datum → Option (Option String)
  | .null => some none
  | d => d.anyText?.map some

end Datum

/-- Monads in which reading can fail. -/
class Fallible (m : Type → Type) where
  fail : {α : Type} → m α

namespace Fallible

instance : Fallible Option := ⟨none⟩

instance {σ : Type} {m : Type → Type} [Fallible m] : Fallible (StateT σ m) := ⟨fun _ => fail⟩

/-- The value, or a failure if there is none. -/
def ofOption {α : Type} {m : Type → Type} [Monad m] [Fallible m] : Option α → m α
  | some a => pure a
  | none => fail

end Fallible

/-- What a document format accepts where a kind of value is wanted. Reading happens in `m`. -/
class Readable (ν : Type) (m : outParam (Type → Type)) where
  /-- Text. -/
  text? : ν → m String
  /-- The value, unless it stands for an absent one. -/
  present? : ν → m (Option ν)
  float? : ν → m Float
  /-- One of several words. -/
  word? : ν → m String
  items? : ν → m (List ν)
  /-- Values under the given names; absent names give `none`. -/
  slots? : List String → ν → m (List (Option ν))
  /-- Any value. -/
  json? : ν → m Json
  /-- Any value, kept as it is written. -/
  datum? : ν → m Datum

instance : Readable Datum Option where
  text? := Datum.text?
  present?
    | .null => some none
    | d => some (some d)
  float?
    | .number n => some n.toFloat
    | _ => none
  word?
    | .text s => some s
    | .map [(.text s, .null)] => some s
    | _ => none
  items? := Datum.items?
  slots? := Datum.slots?
  json? := Datum.toJson?
  datum? d := if d.readable then some d else none

namespace Readable

open Fallible

variable {ν α : Type} {m : Type → Type}

/-- A value that has to be there. -/
def required [Fallible m] (read : ν → m α) : Option ν → m α
  | none => fail
  | some v => read v

variable [Monad m]

/-- A value that may be left out, but not written as absent. -/
def defaulted (default : α) (read : ν → m α) : Option ν → m α
  | none => pure default
  | some v => read v

variable [Readable ν m]

/-- A value that may be left out or written as absent. -/
def optional (read : ν → m α) : Option ν → m (Option α)
  | none => pure none
  | some v => do
    match ← present? v with
    | none => pure none
    | some w => return some (← read w)

/-- A list of values. -/
def list (read : ν → m α) (v : ν) : m (List α) := do
  (← items? v).mapM read

/-- Any value as text. -/
def anyText (v : ν) : m String := return (← json? v).asText

/-- One of several words. -/
def choice [Fallible m] (options : List (String × α)) (v : ν) : m α := do
  ofOption (options.lookup (← word? v))

end Readable

end ScoringTree
