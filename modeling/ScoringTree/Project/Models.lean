import ScoringTree.Project.Config

/-!
# ScoringTree.Project.Models

The model documents of a project, and the sources generated from them.

* `ModelFile`       — a document's path with what its file holds.
* `documentsAt`     — all documents at or below a path, in the order of their paths.
* `compileAll`      — the sources of all documents; no two may generate the same unit.
* `saveSources`     — the sources written to files.
-/

namespace ScoringTree

structure ModelFile where
  path : String
  /-- None if the file cannot be read as text. -/
  text : Option String
  deriving DecidableEq, Repr

namespace ModelFile

/-- JSON or YAML, as the extension says. -/
def document (file : ModelFile) : Except ProjectError Document :=
  match file.text with
  | none => .error .system
  | some text =>
    if Path.extension? file.path = some "json" then
      match Document.ofJson? text with
      | some document => .ok document
      | none => .error .badJson
    else
      match Yaml.read Document.read? text with
      | some document => .ok document
      | none => .error .badYaml

end ModelFile

/-- The path of a file looks like that of a model document. -/
def isDocumentPath (path : String) : Bool :=
  ["yaml", "yml", "json"].any fun e => Path.extension? path == some e

/-- The documents of files, up to the first that has none. -/
def documents : List ModelFile → Except ProjectError (List Document)
  | [] => .ok []
  | file :: rest =>
    match file.document with
    | .error e => .error e
    | .ok document =>
      match documents rest with
      | .error e => .error e
      | .ok others => .ok (document :: others)

/-- The document of a model, from the documents of a folder. -/
def documentNamed (folder name : String) (files : List ModelFile) :
    Except ProjectError Document :=
  match documents files with
  | .error e => .error e
  | .ok found =>
    match found.find? (·.name == name) with
    | some document => .ok document
    | none => .error (.noModel name folder)

/-! ## Compiling -/

/-- The path that already generates one of the units, with that unit. -/
def clash? (owners : List (String × String)) : List (String × String) → Option (String × String)
  | [] => none
  | (unit, _) :: rest =>
    match owners.lookup unit with
    | some first => some (unit, first)
    | none => clash? owners rest

def compileFile (options : CompileOptions) (file : ModelFile) :
    Except ProjectError CompiledModel :=
  match file.document with
  | .error e => .error e
  | .ok document => (document.compile options).mapError .compile

/-- Compiles files in order. `owners` tells which path generates a unit. -/
def compileFrom (options : CompileOptions) (owners : List (String × String)) :
    List ModelFile → Except ProjectError (List CompiledModel)
  | [] => .ok []
  | file :: rest =>
    match compileFile options file with
    | .error e => .error e
    | .ok model =>
      match clash? owners model.sources.units with
      | some (unit, first) => .error (.duplicateUnit unit first file.path)
      | none =>
        let generated := model.sources.units.map fun unit => (unit.1, file.path)
        match compileFrom options (generated ++ owners) rest with
        | .error e => .error e
        | .ok models => .ok (model :: models)

def compileAll (options : CompileOptions) (files : List ModelFile) :
    Except ProjectError (List CompiledModel) :=
  compileFrom options [] files

/-! ## Files -/

/-- A slash for every dot. -/
def slashed (unit : String) : String :=
  String.ofList (unit.toList.map fun c => if c = '.' then '/' else c)

/-- The file of a unit: a folder for every part of the package. -/
def unitPath (folder unit : String) : String :=
  Path.join folder (slashed unit ++ ".java")

/-- The files to write for a model. -/
def sourceFiles (folder : String) (model : CompiledModel) : List (String × String) :=
  model.sources.units.map fun unit => (unitPath folder unit.1, unit.2)

section Store

variable {m : Type → Type} [Monad m] [FileStore m]

/-- The paths of all documents at or below a path. -/
def documentPaths (path : String) : m (List String) := do
  let paths ← FileStore.filesAt path
  return (paths.filter isDocumentPath).mergeSort fun a b => (Path.order a b).isLE

/-- Reads files in order. -/
def readFiles : List String → m (List ModelFile)
  | [] => pure []
  | path :: rest => do
    let text ← FileStore.read? path
    let others ← readFiles rest
    return ⟨path, text⟩ :: others

def documentsAt (path : String) : m (List ModelFile) := do
  readFiles (← documentPaths path)

/-- Writes one file, with the folders it stands in. -/
def writeSource (path text : String) : m Bool := do
  let ready ←
    match Path.parent? path with
    | some parent => FileStore.makeFolders parent
    | none => pure true
  if ready then FileStore.write path text else return false

/-- Writes files up to the first that cannot be written; gives the paths, or none. -/
def writeSources : List (String × String) → m (Option (List String))
  | [] => pure (some [])
  | (path, text) :: rest => do
    if ← writeSource path text then
      return (← writeSources rest).map (path :: ·)
    else return none

def saveSources (folder : String) (model : CompiledModel) :
    m (Except ProjectError (List String)) := do
  match ← writeSources (sourceFiles folder model) with
  | some paths => return .ok paths
  | none => return .error .system

end Store

end ScoringTree
