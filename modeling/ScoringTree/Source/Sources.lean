import ScoringTree.Digest.Sha256

/-!
# ScoringTree.Source.Sources

Generated sources by the qualified name of their unit.

* `Sources.insert`       — adds a unit, in the order of names; one of the same name is replaced.
* `Sources.identity`     — the bytes that tell one set of sources from another.
* `Sources.fingerprint`  — their digest.
-/

namespace ScoringTree

/-- Units with their sources, sorted by name. -/
structure Sources where
  units : List (String × String)
  deriving DecidableEq, Repr

namespace Sources

def empty : Sources := ⟨[]⟩

def get? (sources : Sources) (name : String) : Option String := sources.units.lookup name

def size (sources : Sources) : Nat := sources.units.length

/-- A unit is put where the order of names wants it; one of the same name is replaced. -/
def insertUnit (name source : String) : List (String × String) → List (String × String)
  | [] => [(name, source)]
  | (n, s) :: rest =>
    match compare name n with
    | .lt => (name, source) :: (n, s) :: rest
    | .eq => (name, source) :: rest
    | .gt => (n, s) :: insertUnit name source rest

def insert (sources : Sources) (name source : String) : Sources :=
  ⟨insertUnit name source sources.units⟩

/-- Every name and every source, each with a zero byte behind it. -/
def identity (sources : Sources) : List UInt8 :=
  sources.units.flatMap fun unit =>
    unit.1.toUTF8.toList ++ 0 :: (unit.2.toUTF8.toList ++ [0])

def fingerprint (sources : Sources) : String := Digest.hex (Digest.digest sources.identity)

end Sources

end ScoringTree
