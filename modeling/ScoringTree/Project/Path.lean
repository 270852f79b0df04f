/-!
# ScoringTree.Project.Path

Paths as they are written. Two ways to write a place are two paths: nothing is simplified unless a
function says so.

* `join`        — one path below another; an absolute one replaces it.
* `parent?`     — the path without its last component.
* `extension?`  — what stands behind the last dot of the last component.
* `order`       — the order by components.
-/

namespace ScoringTree
namespace Path

/-- The parts of a path. Empty components are no parts, nor is a dot, unless it comes first. -/
inductive Component where
  | root
  | here
  | up
  | name (s : String)
  deriving DecidableEq, Repr

namespace Component

/-- Special components come before names. -/
def rank : Component → Nat
  | .root => 0
  | .here => 1
  | .up => 2
  | .name _ => 3

def order : Component → Component → Ordering
  | .name a, .name b => compare a b
  | a, b => compare a.rank b.rank

end Component

def isAbsolute (path : String) : Bool := path.toList.head? == some '/'

/-- How many bytes a name may have. -/
def nameLimit : Nat := 255

/-- How many bytes a path may have. -/
def pathLimit : Nat := 4095

/-- A file system takes the path at all: it is neither empty nor too long and has no zero
character. -/
def isUsable (path : String) : Bool :=
  path != "" && path.utf8ByteSize ≤ pathLimit && !path.toList.contains '\x00'

/-- The text between slashes. -/
def segments (path : String) : List String := (path.toList.splitOn '/').map String.ofList

def component? (segment : String) : Option Component :=
  if segment == "" || segment == "." then none
  else if segment == ".." then some .up
  else some (.name segment)

def components (path : String) : List Component :=
  let first : List Component :=
    if isAbsolute path then [.root]
    else if (segments path).head? == some "." then [.here]
    else []
  first ++ (segments path).filterMap component?

/-- The first difference decides; a path comes before those below it. -/
def orderComponents : List Component → List Component → Ordering
  | [], [] => .eq
  | [], _ :: _ => .lt
  | _ :: _, [] => .gt
  | a :: as, b :: bs => (a.order b).then (orderComponents as bs)

def order (a b : String) : Ordering := orderComponents (components a) (components b)

/-- A slash is put between the two unless there is one, or nothing before it. -/
def join (base path : String) : String :=
  if isAbsolute path || base == "" then path
  else if base.toList.getLast? == some '/' then base ++ path
  else base ++ "/" ++ path

/-- The last component, if it is a name. -/
def fileName? (path : String) : Option String :=
  match (components path).getLast? with
  | some (.name s) => some s
  | _ => none

/-- A dot in front of a name starts no extension. -/
def extension? (path : String) : Option String :=
  (fileName? path).bind fun name =>
    let back := name.toList.reverse
    let extension := back.takeWhile (· != '.')
    match back.dropWhile (· != '.') with
    | '.' :: _ :: _ => some (String.ofList extension.reverse)
    | _ => none

/-- How many characters in front are not part of the components that can be taken off one by one:
a slash, or a dot that comes first. -/
def fixedLength (path : String) : Nat :=
  if isAbsolute path || (segments path).head? == some "." then 1 else 0

/-- Drops slashes and lone dots from the end, given backwards, down to `fixed` characters. -/
def trimBack (fixed : Nat) : List Char → List Char
  | [] => []
  | '/' :: rest => if rest.length < fixed then '/' :: rest else trimBack fixed rest
  | '.' :: '/' :: rest =>
    if rest.length + 1 < fixed then '.' :: '/' :: rest else trimBack fixed ('/' :: rest)
  | c :: rest => c :: rest

/-- The path without its last component; none for the root and for the empty path. -/
def parent? (path : String) : Option String :=
  let fixed := fixedLength path
  let back := trimBack fixed path.toList.reverse
  if fixed < back.length then
    some (String.ofList (trimBack fixed
      ((back.take (back.length - fixed)).dropWhile (· != '/') ++
        back.drop (back.length - fixed))).reverse)
  else if back == ['.'] then some ""
  else none

end Path
end ScoringTree
