import LoxFrontEnd.CommandLine.Arguments
import LoxFrontEnd.Log.Filter
import LoxFrontEnd.Session.History
import LoxFrontEnd.Session.Run

/-! Runs of the program.

A run is given its arguments, its environment, its input and the files, and is
known by what it shows, its exit status and the files after it. -/
namespace LoxFrontEnd.CommandLine

/-- The variables of the environment that matter. -/
structure Environment where
  terminal : Option String
  logFilter : Option String
  history : Option String
  dataHome : Option String
  home : Option String
deriving Repr

def usageLine : String := "Usage: lox [script]"

/-- Terminals that are not told to edit a line. Only they are shown the prompt when the input
is no terminal. -/
def plainTerminals : List String := ["dumb", "cons25", "emacs"]

def Environment.prompts (e : Environment) : Bool :=
  match e.terminal with
  | some name => plainTerminals.contains (name.map Char.toLower)
  | none => false

/-- The filter of the log: the one in the environment if it can be read, and otherwise one for
warnings, or for everything but traces in a verbose run. -/
def filter (e : Environment) (verbose : Bool) : Log.Filter :=
  let usual := Log.Filter.ofLevel (if verbose then .debug else .warn)
  (e.logFilter.bind Log.Filter.parse?).getD usual

/-- The log line of an event, if the filter lets it pass. -/
def logLine (f : Log.Filter) (time : String) (e : Log.Event) : Option String :=
  if f.allows e then some (e.toText time ++ "\n") else none

def historyPath (e : Environment) (a : Arguments) : String :=
  a.history.getD (Session.History.defaultPath e.dataHome e.home)

/-! ### The three modes -/

/-- Scans and lists a script. -/
def runScript (path : String) (contents : Except Files.Error String) :
    ExitStatus × List Emission :=
  match contents with
  | .error e =>
    let f := Failure.unreadable path e.message
    (f.status, [Session.failure "Error" f])
  | .ok source =>
    let s := scan source
    let size := toString (Text.width source.toList)
    let opening := ⟨.info, "lox", "scanning script", [("path", path), ("bytes", size)]⟩
    let shown := .log opening :: scanAndList source
    if s.hadError then
      let errors := toString s.diagnostics.size
      (.data, shown ++ [.log ⟨.debug, "lox", "script had lexical errors", [("errors", errors)]⟩])
    else (.success, shown)

def runUsage : ExitStatus × List Emission := (.usage, [.out (usageLine ++ "\n")])

/-- The exit status of a session, and the complaint if it has failed. -/
def endSession (result : Except Failure Unit) : ExitStatus × List Emission :=
  match result with
  | .ok () => (.success, [])
  | .error f => (f.status, [Session.failure "REPL Error" f])

/-! ### Whole runs -/

/-- What is known of a run when it is over. -/
structure Outcome where
  status : ExitStatus
  shown : List Emission
  filter : Log.Filter
  files : Files.Tree

def Outcome.stdout (o : Outcome) : String := Emission.stdout o.shown

def Outcome.stderr (o : Outcome) (time : String) : String :=
  Emission.stderr (logLine o.filter time) o.shown

def runSession (e : Environment) (a : Arguments) (files : Files.Tree) (input : List UInt8) :
    Files.Tree × ExitStatus × List Emission :=
  let (files, events) := Session.History.prepare files (historyPath e a)
  let (result, shown) := Session.run ⟨e.prompts, files.readText⟩ input
  let (status, complaint) := endSession result
  (files, status, events.map .log ++ shown ++ complaint)

/-- A run without a mode: only its version or nothing is shown, and an error is left to the
one who reads the arguments. -/
def runStopped (s : Stop) : ExitStatus × List Emission :=
  match s with
  | .version => (.success, [.out ("lox " ++ version ++ "\n")])
  | .help => (.success, [.out (usageLine ++ "\n")])
  | .error _ => (.refused, [.err (usageLine ++ "\n")])

def run (e : Environment) (arguments : List String) (files : Files.Tree) (input : List UInt8) :
    Outcome :=
  match Arguments.parse arguments e.history with
  | .error stop =>
    let (status, shown) := runStopped stop
    ⟨status, shown, filter e false, files⟩
  | .ok a =>
    let (files, status, shown) := match a.mode with
      | .session => runSession e a files input
      | .script path => (files, runScript path (files.readText path))
      | .usage => (files, runUsage)
    ⟨status, shown, filter e a.verbose, files⟩

end LoxFrontEnd.CommandLine
