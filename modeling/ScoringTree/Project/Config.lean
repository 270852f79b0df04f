import ScoringTree.Compilation
import ScoringTree.Project.Files
import ScoringTree.Yaml.View

/-!
# ScoringTree.Project.Config

Projects: a folder with a configuration, model documents and generated sources.

* `ProjectSettings`  — what the configuration says.
* `Config.load`      — the configuration at a path, of a file or of a folder.
* `ProjectError`     — what can be wrong with a project.
-/

namespace ScoringTree

inductive ProjectError where
  | notFound (path : String)
  /-- A file cannot be read as text, or not be written. -/
  | system
  | badYaml
  | badJson
  | badPackage (name : String)
  | noModel (name folder : String)
  | compile (error : CompileError)
  | duplicateUnit (unit first second : String)
  deriving DecidableEq, Repr

namespace ProjectError

/-- The message. What a parser or the system would add is left out. -/
def message : ProjectError → String
  | .notFound path => "configuration file not found: " ++ path
  | .system => "IO error"
  | .badYaml => "failed to parse configuration"
  | .badJson => "JSON error"
  | .badPackage name =>
    "invalid configuration: package name '" ++ name ++ "' is not a valid dotted identifier"
  | .noModel name folder =>
    "invalid configuration: model '" ++ name ++ "' not found in " ++ folder
  | .compile e => e.message
  | .duplicateUnit unit first second =>
    "unit '" ++ unit ++ "' is generated by both " ++ first ++ " and " ++ second

end ProjectError

structure ProjectSettings where
  name : String
  version : String
  package : String
  modelsFolder : String
  outputFolder : String
  deriving DecidableEq, Repr

namespace ProjectSettings

open Readable in
/-- Everything but the name may be left out. -/
def read? {ν : Type} {m : Type → Type} [Monad m] [Fallible m] [Readable ν m] (v : ν) :
    m ProjectSettings := do
  match ← slots? ["name", "version", "package_name", "models_dir", "output_dir"] v with
  | [name, version, package, models, output] =>
    let name ← required text? name
    let version ← defaulted "0.1.0" text? version
    let package ← defaulted CompileOptions.defaultPackage text? package
    let modelsFolder ← defaulted "models" text? models
    let outputFolder ← defaulted "generated" text? output
    return { name, version, package, modelsFolder, outputFolder }
  | _ => Fallible.fail

def toJson (settings : ProjectSettings) : Json :=
  .object [("name", .string settings.name), ("version", .string settings.version),
    ("package_name", .string settings.package), ("models_dir", .string settings.modelsFolder),
    ("output_dir", .string settings.outputFolder)]

end ProjectSettings

/-- A letter or underscore, then letters, digits and underscores. -/
def isIdentifier : List Char → Bool
  | [] => false
  | c :: cs => (c.isAlpha || c == '_') && cs.all fun d => d.isAlphanum || d == '_'

/-- Identifiers with dots between them. -/
def isPackage (name : String) : Bool := (name.toList.splitOn '.').all isIdentifier

structure Config where
  settings : ProjectSettings
  /-- The folder of the project. -/
  base : String
  deriving DecidableEq, Repr

namespace Config

def fileName : String := "treeforge.yaml"

def modelsFolder (config : Config) : String := Path.join config.base config.settings.modelsFolder

def outputFolder (config : Config) : String := Path.join config.base config.settings.outputFolder

/-- The file of the configuration and the folder of the project, for a path of either. -/
def whereabouts (path : String) (kind : Option FileKind) : String × String :=
  if kind = some .folder then (Path.join path fileName, path)
  else (path, (Path.parent? path).getD ".")

/-- The configuration that a text holds. -/
def ofText (base text : String) : Except ProjectError Config :=
  match Yaml.read ProjectSettings.read? text with
  | none => .error .badYaml
  | some settings =>
    if isPackage settings.package then .ok ⟨settings, base⟩
    else .error (.badPackage settings.package)

section Load

variable {m : Type → Type} [Monad m] [FileStore m]

def load (path : String) : m (Except ProjectError Config) := do
  let (file, base) := whereabouts path (← FileStore.kind? path)
  if (← FileStore.kind? file).isNone then return .error (.notFound file)
  match ← FileStore.read? file with
  | none => return .error .system
  | some text => return ofText base text

end Load

end Config

end ScoringTree
