import ScoringTree.Field.Dictionary

/-!
# ScoringTree.Field.Resolution

The three layers of declarations merged into one table, in the order in which names are first
declared.

Within a layer a name is declared once. Only a local field may take the place of an earlier one,
and only of a derived one. Every field that a definition reads has to be declared, and no field may
depend on itself, directly or through others.

* `FieldTable`            — the resolved fields in order.
* `Dictionaries.resolve`  — the table of three layers, or what is wrong with them.
* `FieldTable.visit`      — the search for a cycle, from one field on.
-/

namespace ScoringTree

/-- The type that generated source gives a field. -/
inductive SourceType where
  | double
  | string
  | boolean
  deriving DecidableEq, Repr

namespace SourceType

def name : SourceType → String
  | .double => "Double"
  | .string => "String"
  | .boolean => "Boolean"

end SourceType

namespace FieldType

def sourceType : FieldType → SourceType
  | .numeric => .double
  | .categorical => .string
  | .text => .string
  | .boolean => .boolean

end FieldType

inductive Layer where
  | data
  | derived
  | inner
  deriving DecidableEq, Repr

namespace Layer

def name : Layer → String
  | .data => "Data"
  | .derived => "Derived"
  | .inner => "Local"

/-- The layer as messages call it. -/
def phrase : Layer → String
  | .data => "data dictionary"
  | .derived => "transformation dictionary"
  | .inner => "local transformations"

/-- A declaration of `layer` may take the place of one of `existing`. -/
def mayShadow (layer existing : Layer) : Bool := layer == .inner && existing == .derived

end Layer

/-- A field with the type it was declared with and the one that generated source gives it. -/
structure ResolvedField where
  fieldType : FieldType
  sourceType : SourceType
  origin : Layer
  dependencies : List String
  deriving DecidableEq, Repr

/-- Why a field cannot be resolved. -/
inductive ResolutionFault where
  | repeated (layer : Layer)
  | collision (layer existing : Layer)
  | badType (unknown : UnknownType)
  | undefinedDependency (name : String)
  | cycle (names : List String)
  deriving DecidableEq, Repr

structure ResolutionError where
  field : String
  fault : ResolutionFault
  deriving DecidableEq, Repr

namespace ResolutionError

def message (error : ResolutionError) : String :=
  "cannot resolve type of field '" ++ error.field ++ "': " ++
    match error.fault with
    | .repeated layer => "defined more than once in the " ++ layer.phrase
    | .collision layer existing =>
      layer.phrase ++ " entry collides with a field from the " ++ existing.phrase
    | .badType unknown => unknown.message
    | .undefinedDependency name => "depends on undefined field '" ++ name ++ "'"
    | .cycle names => "dependency cycle: " ++ String.intercalate " -> " names

end ResolutionError

/-- Resolved fields by name, in the order of first declaration. -/
structure FieldTable where
  entries : List (String × ResolvedField)
  deriving DecidableEq, Repr

/-! ## Merging -/

/-- A declaration, from whichever layer. -/
structure Declaration where
  name : String
  dataType : String
  dependencies : List String
  deriving DecidableEq, Repr

namespace Declaration

def ofData (field : DataField) : Declaration := ⟨field.name, field.dataType, []⟩

def ofDerived (field : DerivedField) : Declaration :=
  ⟨field.name, field.dataType, field.dependencies⟩

end Declaration

namespace FieldTable

def empty : FieldTable := ⟨[]⟩

def get? (table : FieldTable) (name : String) : Option ResolvedField := table.entries.lookup name

def keys (table : FieldTable) : List String := table.entries.map (·.1)

def size (table : FieldTable) : Nat := table.entries.length

/-- The entry of that name is replaced where it stands; a new one goes to the end. -/
def putEntry (name : String) (field : ResolvedField) :
    List (String × ResolvedField) → List (String × ResolvedField)
  | [] => [(name, field)]
  | (n, f) :: rest => if n = name then (name, field) :: rest else (n, f) :: putEntry name field rest

def put (table : FieldTable) (name : String) (field : ResolvedField) : FieldTable :=
  ⟨putEntry name field table.entries⟩

/-- Adds one declaration. A repetition is reported before a collision, and both before a type that
is not known; `seen` holds the names the layer has declared before. -/
def add (layer : Layer) (seen : List String) (table : FieldTable) (declared : Declaration) :
    Except ResolutionError FieldTable :=
  if seen.contains declared.name then .error ⟨declared.name, .repeated layer⟩
  else
    match (table.get? declared.name).filter fun e => !layer.mayShadow e.origin with
    | some existing => .error ⟨declared.name, .collision layer existing.origin⟩
    | none =>
      match FieldType.read declared.dataType with
      | .error unknown => .error ⟨declared.name, .badType unknown⟩
      | .ok fieldType =>
        .ok (table.put declared.name
          ⟨fieldType, fieldType.sourceType, layer, declared.dependencies⟩)

/-- Adds the declarations of a layer in order. -/
def overlay (layer : Layer) (seen : List String) (table : FieldTable) :
    List Declaration → Except ResolutionError FieldTable
  | [] => .ok table
  | declared :: rest =>
    match table.add layer seen declared with
    | .error e => .error e
    | .ok grown => overlay layer (declared.name :: seen) grown rest

/-! ## Dependencies -/

/-- The first field that reads an undeclared one, with the name it reads. -/
def undefined? (table : FieldTable) : List (String × ResolvedField) → Option (String × String)
  | [] => none
  | (name, field) :: rest =>
    match field.dependencies.find? fun d => (table.get? d).isNone with
    | some missing => some (name, missing)
    | none => undefined? table rest

/-- How far the search for cycles is with a field. -/
inductive Mark where
  | unvisited
  | inProgress
  | done
  deriving DecidableEq, Repr

/-- The marks of all fields by position, and the fields on the way to the current one, the
first of them first. -/
structure Search where
  marks : List Mark
  stack : List Nat
  deriving DecidableEq, Repr

def nameAt (table : FieldTable) (index : Nat) : String :=
  match table.entries[index]? with
  | some entry => entry.1
  | none => ""

def position? (table : FieldTable) (name : String) : Option Nat :=
  table.entries.findIdx? (·.1 == name)

/-- The positions of the fields that a field reads. -/
def dependenciesAt (table : FieldTable) (index : Nat) : List Nat :=
  match table.entries[index]? with
  | some entry => entry.2.dependencies.filterMap table.position?
  | none => []

/-- The cycle that closes when the search comes back to `index`. -/
def cycleAt (table : FieldTable) (stack : List Nat) (index : Nat) : ResolutionError :=
  let start := (stack.idxOf? index).getD 0
  let name := table.nameAt index
  ⟨name, .cycle ((stack.drop start).map table.nameAt ++ [name])⟩

mutual

/-- Searches for a cycle from one field on. The first argument bounds the length of the way. -/
def visit (table : FieldTable) : Nat → Search → Nat → Except ResolutionError Search
  | 0, search, _ => .ok search
  | fuel + 1, search, index =>
    match search.marks[index]? with
    | none => .ok search
    | some .done => .ok search
    | some .inProgress => .error (table.cycleAt search.stack index)
    | some .unvisited =>
      let entered : Search :=
        ⟨search.marks.set index .inProgress, search.stack ++ [index]⟩
      match visitAll table fuel entered (table.dependenciesAt index) with
      | .error e => .error e
      | .ok left => .ok ⟨left.marks.set index .done, left.stack.dropLast⟩

def visitAll (table : FieldTable) : Nat → Search → List Nat → Except ResolutionError Search
  | _, search, [] => .ok search
  | fuel, search, index :: rest =>
    match visit table fuel search index with
    | .error e => .error e
    | .ok left => visitAll table fuel left rest

end

/-- Searches for a cycle from every field; no way is longer than the table. -/
def checkCycles (table : FieldTable) : Except ResolutionError Search :=
  table.visitAll (table.size + 1) ⟨table.entries.map fun _ => .unvisited, []⟩
    (List.range table.size)

end FieldTable

namespace Dictionaries

/-- The three layers put over each other. -/
def merge (layers : Dictionaries) : Except ResolutionError FieldTable := do
  let table ← FieldTable.empty.overlay .data [] (layers.data.map .ofData)
  let table ← table.overlay .derived [] (layers.derived.map .ofDerived)
  table.overlay .inner [] (layers.locals.map .ofDerived)

/-- The table of the three layers. -/
def resolve (layers : Dictionaries) : Except ResolutionError FieldTable :=
  match layers.merge with
  | .error e => .error e
  | .ok table =>
    match table.undefined? table.entries with
    | some (name, missing) => .error ⟨name, .undefinedDependency missing⟩
    | none =>
      match table.checkCycles with
      | .error e => .error e
      | .ok _ => .ok table

end Dictionaries

end ScoringTree
