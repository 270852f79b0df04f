import ScoringTree.Project.Path

/-!
# ScoringTree.Project.Files

What commands ask of a file system, and a file system in memory.

* `FileStore`      — the questions and the two ways to change something.
* `Files`          — files and folders by their place.
* `Files.locate?`  — the place a path leads to.
-/

namespace ScoringTree

inductive FileKind where
  | file
  | folder
  deriving DecidableEq, Repr

/-- A file system as commands see it. Paths are taken from the folder in which a command runs. -/
class FileStore (m : Type → Type) where
  /-- What stands at a path, if anything does. -/
  kind? : String → m (Option FileKind)
  /-- The text of a file; none if there is no file, or if it holds no text. -/
  read? : String → m (Option String)
  /-- The paths of all files below a path, or the path itself if it is a file. -/
  filesAt : String → m (List String)
  /-- The name of the place a path leads to: `none` if there is no such place, `some none` if it has
  no name. -/
  placeName? : String → m (Option (Option String))
  /-- Makes a folder and those it stands in; tells whether it is there afterwards. -/
  makeFolders : String → m Bool
  /-- Writes a file into a folder that is there; tells whether it could. -/
  write : String → String → m Bool

/-! ## In memory -/

inductive Content where
  | folder
  | text (s : String)
  /-- A file that holds no text. -/
  | binary
  deriving DecidableEq, Repr

namespace Content

def kind : Content → FileKind
  | .folder => .folder
  | _ => .file

end Content

/-- Names from the top folder down. -/
abbrev Place := List String

structure Files where
  /-- Every place but the top folder. -/
  entries : List (Place × Content)
  /-- The folder in which commands run. -/
  home : Place
  deriving DecidableEq, Repr

namespace Files

/-- Nothing but a folder to run in. -/
def fresh (home : String) : Files := ⟨[([home], .folder)], [home]⟩

def get? (files : Files) (place : Place) : Option Content :=
  if place.isEmpty then some .folder else files.entries.lookup place

def isFolder (files : Files) (place : Place) : Bool := files.get? place == some .folder

/-- What stood at the place is replaced. -/
def put (files : Files) (place : Place) (content : Content) : Files :=
  { files with entries := (place, content) :: files.entries.filter (·.1 != place) }

/-- One step on the way: only a folder can be passed, and no name is too long. -/
def enter? (files : Files) (place : Place) (segment : String) : Option Place :=
  if !files.isFolder place || Path.nameLimit < segment.utf8ByteSize then none
  else if segment == "" || segment == "." then some place
  else if segment == ".." then some place.dropLast
  else some (place ++ [segment])

/-- Where a path starts. -/
def origin (files : Files) (path : String) : Place :=
  if Path.isAbsolute path then [] else files.home

/-- The place a path leads to; there may be nothing there yet. -/
def locate? (files : Files) (path : String) : Option Place :=
  if Path.isUsable path then (Path.segments path).foldlM files.enter? (files.origin path)
  else none

def at? (files : Files) (path : String) : Option Content :=
  (files.locate? path).bind files.get?

/-- The file's path below the folder that `path` names. -/
def pathBelow (path : String) (names : Place) : String := names.foldl Path.join path

def filesAt (files : Files) (path : String) : List String :=
  match files.locate? path with
  | none => []
  | some place =>
    match files.get? place with
    | none => []
    | some .folder =>
      files.entries.filterMap fun entry =>
        if place.isPrefixOf entry.1 && entry.2 != .folder then
          some (pathBelow path (entry.1.drop place.length))
        else none
    | some _ => [path]

/-- Makes the folders on the way that are missing; stops at a file. -/
def makeFoldersFrom (place : Place) : List String → Files → Bool × Files
  | [], files => (true, files)
  | segment :: rest, files =>
    match files.enter? place segment with
    | none => (false, files)
    | some next =>
      match files.get? next with
      | some .folder => makeFoldersFrom next rest files
      | some _ => (false, files)
      | none => makeFoldersFrom next rest (files.put next .folder)

/-- Makes the folder a path names. A dot at the end stands for a folder that has to be there, so
only those around it are made. -/
def makeFolders (files : Files) (path : String) : Bool × Files :=
  let (ending, body) := (Path.segments path).reverse.span fun s => s == "" || s == "."
  let start := files.origin path
  if path == "" then (true, files)
  else if !Path.isUsable path then (false, files)
  else if ending.contains "." then
    let (made, grown) := makeFoldersFrom start body.tail.reverse files
    (made && grown.at? path == some .folder, grown)
  else makeFoldersFrom start (Path.segments path) files

def write (files : Files) (path : String) (content : Content) : Bool × Files :=
  match files.locate? path with
  | none => (false, files)
  | some place =>
    if files.isFolder place then (false, files) else (true, files.put place content)

instance : FileStore (StateM Files) where
  kind? path := do return ((← get).at? path).map Content.kind
  read? path := do
    match (← get).at? path with
    | some (.text s) => return some s
    | _ => return none
  filesAt path := do return (← get).filesAt path
  placeName? path := do
    let files ← get
    return ((files.locate? path).filter fun place => (files.get? place).isSome).map (·.getLast?)
  makeFolders path := modifyGet (·.makeFolders path)
  write path text := modifyGet (·.write path (.text text))

end Files

end ScoringTree
