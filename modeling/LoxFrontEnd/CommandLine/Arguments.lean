/-! Arguments of the command line.

Arguments are read from left to right. Values are gathered first and settled
later: when the next option or argument begins, or at the end. So the first fault
decides in the order of settling, but an argument that is not known at all is
refused before what was gathered is looked at. -/
namespace LoxFrontEnd.CommandLine

/-- What the arguments ask for. -/
structure Arguments where
  scripts : List String
  verbose : Bool
  history : Option String
deriving DecidableEq, Repr

/-- Why arguments are refused. -/
inductive ArgumentError where
  /-- An option that does not exist. -/
  | unknownArgument
  /-- An option given twice. -/
  | argumentConflict
  /-- A value for an option that has none. -/
  | tooManyValues
  /-- A value that is missing or empty. -/
  | invalidValue
deriving DecidableEq, Repr

/-- Why reading the arguments ends before it has led to a run. -/
inductive Stop where
  | error (e : ArgumentError)
  | help
  | version
deriving DecidableEq, Repr

/-- What is gathered and not yet settled. -/
inductive Pending where
  | nothing
  | scripts (names : List String)
  /-- The history option, and its value if there was one. -/
  | history (path : Option String)
deriving DecidableEq, Repr

namespace Arguments

structure State where
  settled : Arguments
  pending : Pending
deriving DecidableEq, Repr

def initial : State := ⟨⟨[], false, none⟩, .nothing⟩

/-! ### Settling -/

/-- The history option is given once, with a value that is not empty. -/
def setHistory (a : Arguments) (path : String) : Except Stop Arguments :=
  if a.history.isSome then .error (.error .argumentConflict)
  else if path.isEmpty then .error (.error .invalidValue)
  else .ok { a with history := some path }

def addScripts (a : Arguments) (names : List String) : Except Stop Arguments :=
  if names.any String.isEmpty then .error (.error .invalidValue)
  else .ok { a with scripts := a.scripts ++ names }

def settle (s : State) : Except Stop Arguments :=
  match s.pending with
  | .nothing => .ok s.settled
  | .scripts names => addScripts s.settled names
  | .history none => .error (.error .invalidValue)
  | .history (some path) => setHistory s.settled path

/-! ### Options -/

inductive Flag where
  | verbose | help | version
deriving DecidableEq, Repr

def Flag.ofLong? : String → Option Flag
  | "verbose" => some .verbose
  | "help" => some .help
  | "version" => some .version
  | _ => none

def Flag.ofShort? : Char → Option Flag
  | 'v' => some .verbose
  | 'h' => some .help
  | 'V' => some .version
  | _ => none

def applyFlag (s : State) (f : Flag) : Except Stop State := do
  let a ← settle s
  match f with
  | .help => .error .help
  | .version => .error .version
  | .verbose =>
    if a.verbose then .error (.error .argumentConflict)
    else .ok ⟨{ a with verbose := true }, .nothing⟩

/-- Letters after one dash. -/
def applyLetters (s : State) : List Char → Except Stop State
  | [] => .ok s
  | c :: rest => match Flag.ofShort? c with
    | none => .error (.error .unknownArgument)
    | some f => do applyLetters (← applyFlag s f) rest

/-- The history option, with its value if that is attached to it. -/
def applyHistory (s : State) (attached : Option String) : Except Stop State := do
  let a ← settle s
  match attached with
  | none => .ok ⟨a, .history none⟩
  | some path => .ok ⟨← setHistory a path, .nothing⟩

/-- A name after two dashes, perhaps with an equals sign and a value. -/
def applyLong (s : State) (text : List Char) : Except Stop State :=
  let name := String.ofList (text.takeWhile (· != '='))
  let value := (text.dropWhile (· != '=')).tail?.map String.ofList
  if name = "history" then applyHistory s value
  else match Flag.ofLong? name with
    | none => .error (.error .unknownArgument)
    | some f => if value.isSome then .error (.error .tooManyValues) else applyFlag s f

/-- An argument that is no option: a script. -/
def applyScript (s : State) (name : String) : Except Stop State :=
  match s.pending with
  | .scripts names => .ok { s with pending := .scripts (names ++ [name]) }
  | _ => do .ok ⟨← settle s, .scripts [name]⟩

/-- An argument that is no option: the value for which the history option waits, or a script. -/
def applyValue (s : State) (value : String) : Except Stop State :=
  match s.pending with
  | .history none => .ok { s with pending := .history (some value) }
  | _ => applyScript s value

/-! ### All arguments -/

/-- Reads arguments; after two dashes all of them are scripts. -/
def readAll (s : State) : List String → Except Stop State
  | [] => .ok s
  | argument :: rest =>
    match argument.toList with
    | ['-', '-'] => rest.foldlM applyScript s
    | '-' :: '-' :: text => do readAll (← applyLong s text) rest
    | '-' :: c :: letters => do readAll (← applyLetters s (c :: letters)) rest
    | _ => do readAll (← applyValue s argument) rest

/-- The settings of a command line. A history path from the environment stands in for the
option where that is not given. -/
def parse (arguments : List String) (historyVariable : Option String) :
    Except Stop Arguments := do
  let a ← settle (← readAll initial arguments)
  match a.history, historyVariable with
  | none, some path => setHistory a path
  | _, _ => .ok a

end Arguments

/-- What there is to do. -/
inductive Mode where
  | session
  | script (path : String)
  | usage
deriving DecidableEq, Repr

/-- One script is scanned, without a script there is a session, and more are an error. -/
def Arguments.mode (a : Arguments) : Mode :=
  match a.scripts with
  | [] => .session
  | [path] => .script path
  | _ => .usage

end LoxFrontEnd.CommandLine
