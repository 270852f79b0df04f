import ScoringTree.Command.Arguments
import ScoringTree.Command.Starter
import ScoringTree.Project.Models
import ScoringTree.Scoring.Evaluation
import ScoringTree.Text.Blank
import ScoringTree.Text.Lines

/-!
# ScoringTree.Command.Run

What the commands do.

* `Failure`          — messages, the outermost first.
* `Report`           — the lines a command printed, and its failure if it failed.
* `createProject`, `validateProject`, `compileProject`, `scoreRecords`
                     — the commands over any file store.
* `Invocation.run`   — the command that was asked for.
-/

namespace ScoringTree

abbrev Failure := List String

/-- The failure that an error is, within a context. -/
def within {α : Type} (context : String) (result : Except ProjectError α) : Except Failure α :=
  result.mapError fun e => [context, e.message]

structure Report where
  lines : List String
  failure : Option Failure
  deriving DecidableEq, Repr

namespace Report

def ofResult : Except Failure Unit → Report
  | .ok () => ⟨[], none⟩
  | .error failure => ⟨[], some failure⟩

end Report

/-! ## Validation -/

/-- Checks documents in order. `owners` tells which model generates a unit. -/
def validateFrom (options : CompileOptions) (owners : List (String × String)) :
    List Document → Except Failure Unit
  | [] => .ok ()
  | document :: rest =>
    match within ("Model '" ++ document.name ++ "' does not compile")
        ((document.compile options).mapError .compile) with
    | .error failure => .error failure
    | .ok model =>
      match clash? owners model.sources.units with
      | some (unit, other) =>
        .error ["Models '" ++ other ++ "' and '" ++ document.name ++ "' both generate " ++ unit]
      | none =>
        validateFrom options (model.sources.units.map (fun u => (u.1, document.name)) ++ owners)
          rest

/-- Checks all documents of a project. -/
def validateFiles (config : Config) (files : List ModelFile) : Except Failure Unit := do
  let documents ← within "Failed to load models" (documents files)
  validateFrom ⟨config.settings.package, .standard⟩ [] documents

/-! ## Compilation -/

/-- The models that a compilation generates, with one named or without. -/
def compileFiles (config : Config) (model package : Option String) (files : List ModelFile) :
    Except Failure (List CompiledModel) :=
  let options : CompileOptions := ⟨package.getD config.settings.package, .standard⟩
  match model with
  | some name => do
    let document ←
      within ("Model not found: " ++ name) (documentNamed config.modelsFolder name files)
    let compiled ←
      within ("Failed to compile model '" ++ name ++ "'")
        ((document.compile options).mapError .compile)
    .ok [compiled]
  | none => within "Failed to compile models" (compileAll options files)

/-! ## Scoring -/

/-- A prediction as it is printed; without one, everything in it is absent. -/
def predictionJson : Option Prediction → Json
  | none => .object [("confidences", .object []), ("node", .null), ("score", .null)]
  | some p =>
    .object [
      ("confidences", .object (p.confidences.foldl (fun members c =>
        Json.insert c.1 (if Number.isFinite c.2 then .ofFloat c.2 else .null) members) [])),
      ("node", .string p.nodeId),
      ("score", .ofOption p.score)]

/-- The records of a text, one on each line that is not blank. Lines are counted without the blank
ones. -/
def recordsFrom (number : Nat) : List String → Except Failure (List Json)
  | [] => .ok []
  | line :: rest =>
    match Json.parse line with
    | none => .error ["Invalid JSON on line " ++ toString number]
    | some record =>
      match recordsFrom (number + 1) rest with
      | .error failure => .error failure
      | .ok records => .ok (record :: records)

def recordsOf (text : String) : Except Failure (List Json) :=
  recordsFrom 1 ((Text.lines text).filter fun line => !(Text.trim line).isEmpty)

/-- Scores records in order, up to the first that cannot be scored. -/
def scoreAll (tree : Tree) (types : FieldTypes) : List Json → Report
  | [] => ⟨[], none⟩
  | record :: rest =>
    match tree.evaluate types record with
    | .error e => ⟨[], some [e.message]⟩
    | .ok prediction =>
      let report := scoreAll tree types rest
      { report with lines := (predictionJson prediction).render :: report.lines }

/-- The tree of a document and the types of its fields. -/
def scorable (document : Document) : Except Failure (Tree × FieldTypes) :=
  match document.toTree with
  | .error e => .error [e.message]
  | .ok tree =>
    match document.fieldTypes with
    | .error e => .error [e.message]
    | .ok types => .ok (tree, types)

section Store

variable {m : Type → Type} [Monad m] [FileStore m]

/-! ## Over a file store -/

/-- The configuration at a path, with the documents of its project. -/
def loadProject (path : String) : m (Except Failure (Config × List ModelFile)) := do
  match within "Failed to load configuration" (← Config.load path) with
  | .error failure => return .error failure
  | .ok config => return .ok (config, ← documentsAt config.modelsFolder)

def validateProject (configPath : String) : m Report := do
  match ← loadProject configPath with
  | .error failure => return ⟨[], some failure⟩
  | .ok (config, files) => return .ofResult (validateFiles config files)

/-- Writes the sources of models in order. -/
def saveAll (folder : String) : List CompiledModel → m Report
  | [] => pure ⟨[], none⟩
  | model :: rest => do
    match within ("Failed to write sources for '" ++ model.name ++ "'")
        (← saveSources folder model) with
    | .error failure => return ⟨[], some failure⟩
    | .ok _ => saveAll folder rest

/-- Nothing is written unless everything compiles. -/
def compileProject (configPath : String) (model package output : Option String) : m Report := do
  match ← loadProject configPath with
  | .error failure => return ⟨[], some failure⟩
  | .ok (config, files) =>
    match compileFiles config model package files with
    | .error failure => return ⟨[], some failure⟩
    | .ok models =>
      let folder :=
        match output with
        | some path => Path.join config.base path
        | none => config.outputFolder
      saveAll folder models

/-- The records to score: the one given, or those of a file. -/
def readRecords (base : String) (record input : Option String) :
    m (Except Failure (List Json)) := do
  match record, input with
  | some text, _ =>
    match Json.parse text with
    | some value => return .ok [value]
    | none => return .error ["Invalid JSON record"]
  | none, some file =>
    let path := Path.join base file
    match ← FileStore.read? path with
    | some text => return recordsOf text
    | none => return .error ["Failed to read " ++ path]
  | none, none => return .error ["Provide a record with --record or a file with --input"]

def scoreRecords (configPath model : String) (record input : Option String) : m Report := do
  match ← loadProject configPath with
  | .error failure => return ⟨[], some failure⟩
  | .ok (config, files) =>
    match within ("Model not found: " ++ model)
        (documentNamed config.modelsFolder model files) with
    | .error failure => return ⟨[], some failure⟩
    | .ok document =>
      match scorable document with
      | .error failure => return ⟨[], some failure⟩
      | .ok (tree, types) =>
        match ← readRecords config.base record input with
        | .error failure => return ⟨[], some failure⟩
        | .ok records => return scoreAll tree types records

/-- Makes folders in order, up to the first that cannot be made. -/
def makeAll : List String → m Bool
  | [] => pure true
  | path :: rest => do
    if ← FileStore.makeFolders path then makeAll rest else return false

/-- Writes files in order, up to the first that cannot be written. -/
def writeAll : List (String × String) → m Bool
  | [] => pure true
  | (path, text) :: rest => do
    if ← FileStore.write path text then writeAll rest else return false

def systemFailure : Report := ⟨[], some [ProjectError.system.message]⟩

/-- Fills a folder that holds no project yet. -/
def fillProject (path name : String) : m Report := do
  if (← FileStore.kind? (Path.join path Config.fileName)).isSome then
    return ⟨[], some ["Directory '" ++ path ++ "' already contains a treeforge.yaml"]⟩
  let made ← makeAll (Starter.folders.map (Path.join path))
  if !made then return systemFailure
  let written ← writeAll ((Starter.files name).map fun file => (Path.join path file.1, file.2))
  if !written then return systemFailure
  return ⟨[], none⟩

/-- Makes a new project. Without a name it is called like its folder. -/
def createProject (path : String) (name : Option String) : m Report := do
  let there ←
    if (← FileStore.kind? path).isSome then pure true else FileStore.makeFolders path
  if !there then return systemFailure
  match ← FileStore.placeName? path with
  | none => return systemFailure
  | some folder =>
    match name.or folder with
    | none => return ⟨[], some ["Could not determine project name from path"]⟩
    | some name => fillProject path name

def Invocation.run (invocation : Invocation) : m Report :=
  match invocation.command with
  | .init path name => createProject path name
  | .validate => validateProject invocation.config
  | .compile model package output => compileProject invocation.config model package output
  | .score model record input => scoreRecords invocation.config model record input

end Store

end ScoringTree
