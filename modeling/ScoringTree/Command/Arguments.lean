/-!
# ScoringTree.Command.Arguments

The arguments of the command line.

Options are written `--name value`, `--name=value`, `-n value`, `-nvalue` or `-n=value`, and each
may be given once. A value on its own must not look like an option. After `--` nothing is an option.
An option whose value is an argument of its own counts only when the next option comes, so a wish
for help behind a command is heard before a repetition in front of it.

* `Command`      — what is asked for.
* `Invocation`   — the command with the path of the configuration.
* `Usage`        — an invocation, a wish for help, or neither.
* `Usage.read`   — arguments read.
-/

namespace ScoringTree

inductive Command where
  | init (path : String) (name : Option String)
  | validate
  | compile (model package output : Option String)
  | score (model : String) (record input : Option String)
  deriving DecidableEq, Repr

structure Invocation where
  config : String
  verbose : Bool
  command : Command
  deriving DecidableEq, Repr

inductive Usage where
  | run (invocation : Invocation)
  | help
  | wrong
  deriving DecidableEq, Repr

/-- An option with its two names. -/
structure OptionName where
  short : Char
  long : String
  takesValue : Bool
  deriving DecidableEq, Repr

/-- Options that were given, and arguments that are none. -/
structure Given where
  options : List (String × String)
  /-- The latest option, if it does not count yet. -/
  latest : Option (String × String)
  positionals : List String
  deriving DecidableEq, Repr

namespace Given

def none : Given := ⟨[], .none, []⟩

def get? (given : Given) (long : String) : Option String := given.options.lookup long

/-- An option may be given once. -/
def addOption (given : Given) (long value : String) : Option Given :=
  if (given.get? long).isSome then .none
  else some { given with options := (long, value) :: given.options }

/-- Lets the latest option count. -/
def settle (given : Given) : Option Given :=
  match given.latest with
  | .none => some given
  | some (long, value) => { given with latest := .none }.addOption long value

def addPositional (given : Given) (argument : String) : Given :=
  { given with positionals := given.positionals ++ [argument] }

end Given

namespace Arguments

/-- Looks like an option, or like the mark that ends them. A lone dash does not. -/
def looksLikeOption (argument : String) : Bool :=
  match argument.toList with
  | '-' :: _ :: _ => true
  | _ => false

/-- What one argument amounts to. -/
inductive Piece where
  | positional
  /-- From here on there are no options. -/
  | separator
  | wrong
  /-- Flags that were given, and a wish for help or an option that has its value or still waits for
  it. -/
  | flags (longs : List String)
  | help (longs : List String)
  | withValue (longs : List String) (long value : String)
  | awaiting (longs : List String) (long : String)
  deriving DecidableEq, Repr

/-- A name and the text behind the first equals sign. -/
def splitEquals (cs : List Char) : String × Option String :=
  let name := String.ofList (cs.takeWhile (· != '='))
  match cs.dropWhile (· != '=') with
  | [] => (name, none)
  | _ :: value => (name, some (String.ofList value))

def longPiece (names : List OptionName) (helps : List String) (cs : List Char) : Piece :=
  match splitEquals cs with
  | (name, value) =>
    match names.find? (·.long == name) with
    | some option =>
      match option.takesValue, value with
      | true, some v => .withValue [] name v
      | true, none => .awaiting [] name
      | false, none => .flags [name]
      | false, some _ => .wrong
    | none => if helps.contains name && value.isNone then .help [] else .wrong

/-- Short options may be run together; the first that takes a value takes the rest. -/
def shortPiece (names : List OptionName) (helps : List Char) (flags : List String) :
    List Char → Piece
  | [] => .flags flags
  | c :: cs =>
    match names.find? (·.short == c) with
    | some option =>
      if option.takesValue then
        match cs with
        | [] => .awaiting flags option.long
        | '=' :: value => .withValue flags option.long (String.ofList value)
        | value => .withValue flags option.long (String.ofList value)
      else shortPiece names helps (flags ++ [option.long]) cs
    | none => if helps.contains c then .help flags else .wrong

/-- The options of a command, and the spellings of a wish for help. -/
structure Grammar where
  names : List OptionName
  helpLong : List String
  helpShort : List Char

def piece (grammar : Grammar) (argument : String) : Piece :=
  match argument.toList with
  | ['-', '-'] => .separator
  | '-' :: '-' :: cs => longPiece grammar.names grammar.helpLong cs
  | '-' :: c :: cs => shortPiece grammar.names grammar.helpShort [] (c :: cs)
  | _ => .positional

/-- Adds flags behind the options so far, which all count then. -/
def addFlags (given : Given) (longs : List String) : Option Given := do
  longs.foldlM (·.addOption · "") (← given.settle)

/-- What reading arguments comes to: what was given with the arguments that are left, a wish for
help, or a fault. -/
inductive Reading where
  | done (given : Given) (rest : List String)
  | help
  | wrong
  deriving DecidableEq, Repr

/-- Reads options, and positional arguments as long as there are fewer than `most`; one more ends
the reading if `stops`, and is a fault otherwise. -/
def read (grammar : Grammar) (most : Nat) (stops : Bool) (given : Given) : List String → Reading
  | [] => .done given []
  | argument :: rest =>
    match piece grammar argument with
    | .positional =>
      if given.positionals.length < most then
        match given.settle with
        | some given => read grammar most stops (given.addPositional argument) rest
        | none => .wrong
      else if stops then .done given (argument :: rest)
      else .wrong
    | .separator =>
      if given.positionals.length + rest.length ≤ most then
        .done (rest.foldl Given.addPositional given) []
      else .wrong
    | .wrong => .wrong
    | .flags longs =>
      match addFlags given longs with
      | some given => read grammar most stops given rest
      | none => .wrong
    | .help longs =>
      match addFlags given longs with
      | some _ => .help
      | none => .wrong
    | .withValue longs long value =>
      match (addFlags given longs).bind (·.addOption long value) with
      | some given => read grammar most stops given rest
      | none => .wrong
    | .awaiting longs long =>
      match rest with
      | [] => .wrong
      | value :: rest =>
        if looksLikeOption value then .wrong
        else
          match addFlags given longs with
          | some given => read grammar most stops { given with latest := (long, value) } rest
          | none => .wrong

/-- The options before the command. -/
def mainGrammar : Grammar :=
  { names := [⟨'c', "config", true⟩, ⟨'v', "verbose", false⟩],
    helpLong := ["help", "version"], helpShort := ['h', 'V'] }

/-- The options of a command. -/
def commandGrammar (names : List OptionName) : Grammar :=
  { names, helpLong := ["help"], helpShort := ['h'] }

/-- The options of each command, and how many positional arguments it takes. -/
def commandShape? : String → Option (Grammar × Nat)
  | "init" => some (commandGrammar [⟨'n', "name", true⟩], 1)
  | "validate" => some (commandGrammar [], 0)
  | "compile" =>
    some (commandGrammar [⟨'m', "model", true⟩, ⟨'p', "package", true⟩, ⟨'o', "output", true⟩], 0)
  | "score" => some (commandGrammar [⟨'r', "record", true⟩, ⟨'i', "input", true⟩], 1)
  | _ => none

/-- The command that was given; a record and a file of records exclude each other. -/
def command? (name : String) (given : Given) : Option Command :=
  match name, given.positionals with
  | "init", path => some (.init (path.headD ".") (given.get? "name"))
  | "validate", _ => some .validate
  | "compile", _ =>
    some (.compile (given.get? "model") (given.get? "package") (given.get? "output"))
  | "score", model :: _ =>
    match given.get? "record", given.get? "input" with
    | some _, some _ => none
    | record, input => some (.score model record input)
  | _, _ => none

end Arguments

namespace Usage

open Arguments

/-- What help can be asked about: everything, a command, or help itself. -/
def isHelpTopic : List String → Bool
  | [] => true
  | [topic] => topic == "help" || (commandShape? topic).isSome
  | _ => false

/-- The command behind the options that come before it. -/
def readCommand (outer : Given) (name : String) (arguments : List String) : Usage :=
  match commandShape? name with
  | none => if name == "help" && isHelpTopic arguments then .help else .wrong
  | some (grammar, most) =>
    match Arguments.read grammar most false .none arguments with
    | .help => .help
    | .wrong => .wrong
    | .done given _ =>
      match outer.settle, given.settle.bind (command? name) with
      | some outer, some command =>
        .run {
          config := (outer.get? "config").getD "treeforge.yaml",
          verbose := (outer.get? "verbose").isSome,
          command }
      | _, _ => .wrong

def read (arguments : List String) : Usage :=
  match Arguments.read mainGrammar 0 true .none arguments with
  | .help => .help
  | .wrong => .wrong
  | .done _ [] => .wrong
  | .done outer (name :: rest) => readCommand outer name rest

end Usage

end ScoringTree
