/-!
# ScoringTree.Truth

Three-valued truth and the ways predicates are combined.

* `Truth.all`, `Truth.any`, `Truth.parity`, `Truth.firstKnown`  — the combinations.
* `Connective.combine`                                          — the combination a document names.
-/

namespace ScoringTree

inductive Truth where
  | true
  | false
  | unknown
  deriving DecidableEq, Repr

namespace Truth

def ofBool (b : Bool) : Truth := if b then .true else .false

def name : Truth → String
  | .true => "true"
  | .false => "false"
  | .unknown => "unknown"

/-- False wins over unknown, unknown over true; true of nothing. -/
def all : List Truth → Truth
  | [] => .true
  | .true :: rest => all rest
  | .false :: _ => .false
  | .unknown :: rest => if all rest = .false then .false else .unknown

/-- True wins over unknown, unknown over false; false of nothing. -/
def any : List Truth → Truth
  | [] => .false
  | .true :: _ => .true
  | .false :: rest => any rest
  | .unknown :: rest => if any rest = .true then .true else .unknown

/-- An odd number of truths, unless something is unknown. -/
def parity : List Truth → Truth
  | [] => .false
  | .false :: rest => parity rest
  | .unknown :: _ => .unknown
  | .true :: rest =>
    match parity rest with
    | .true => .false
    | .false => .true
    | .unknown => .unknown

/-- The first that is not unknown. -/
def firstKnown : List Truth → Truth
  | [] => .unknown
  | .unknown :: rest => firstKnown rest
  | t :: _ => t

end Truth

/-- How a compound predicate combines its operands. -/
inductive Connective where
  | and
  | or
  | xor
  | surrogate
  deriving DecidableEq, Repr

namespace Connective

def name : Connective → String
  | .and => "and"
  | .or => "or"
  | .xor => "xor"
  | .surrogate => "surrogate"

def ordered : List Connective := [.and, .or, .xor, .surrogate]

def combine : Connective → List Truth → Truth
  | .and => Truth.all
  | .or => Truth.any
  | .xor => Truth.parity
  | .surrogate => Truth.firstKnown

end Connective

end ScoringTree
