import LoxFrontEnd.Failure
import LoxFrontEnd.Listing
import LoxFrontEnd.Log.Scanning
import LoxFrontEnd.Session.Entry
import LoxFrontEnd.Session.Help
import LoxFrontEnd.Text.Utf8

/-! Sessions.

A session reads lines, makes entries of them and answers each entry by itself: a
command is carried out, and any other text is scanned and listed. It ends with its
input, at a command, or at a line that is no text. A run on lines `a ++ b` is a
run on `a` and, from where that stands, a run on `b` (`steps_append`). -/
namespace LoxFrontEnd

def errorLabel (text : String) : String := Text.bold (Text.Colour.red.paint text) ++ ": "

/-- The scan of a source as it is shown, with its events in the log. -/
def scanAndList (source : String) : List Emission :=
  (scanEvents source).map .log ++ Listing.scanned source (scan source)

namespace Session

/-- What a session depends on. -/
structure Setting where
  /-- Is the prompt written before each line that is read? -/
  prompts : Bool
  /-- The contents of the files that can be named. -/
  readText : String → Except Files.Error String

/-! ### Answers to entries -/

/-- What an entry asks for. -/
inductive Request where
  | nothing
  | command (c : Command) (argument : Option String)
  | scan (source : String)
deriving DecidableEq, Repr

def Request.ofEntry (entry : String) : Request :=
  if (Text.trim entry.toList).isEmpty then .nothing
  else match Command.parse entry with
    | some (c, argument) => .command c argument
    | none => .scan entry

/-- The file that an entry asks for. -/
def Request.file? : Request → Option String
  | .command .load argument => argument
  | _ => none

/-- The complaint that the command to load a file names none. -/
def missingPath : Emission :=
  .err (errorLabel "Error" ++ Text.Colour.cyan.paint ".load" ++ " " ++
    Text.dimmed "requires a file path" ++ "\n")

def failure (label : String) (f : Failure) : Emission :=
  .err (errorLabel label ++ f.message ++ "\n")

def loaded (path : String) (contents : Except Files.Error String) : List Emission :=
  match contents with
  | .ok source => scanAndList source
  | .error e => [failure "Error" (.unreadable path e.message)]

/-- What is shown in answer to a request. -/
def answer (setting : Setting) : Request → List Emission
  | .nothing => []
  | .scan source => scanAndList source
  | .command .help _ => help
  | .command .exit _ => []
  | .command .clear _ => [clearing]
  | .command .version _ => [versionLine]
  | .command .load none => [missingPath]
  | .command .load (some path) => loaded path (setting.readText path)

def leaves : Request → Bool
  | .command .exit _ => true
  | _ => false

/-! ### Runs -/

/-- Where a session stands. -/
inductive State where
  /-- It waits for a line that goes on with the given text. -/
  | reading (buffer : List Char)
  | ended (result : Except Failure Unit)
deriving Repr

def prompt (setting : Setting) : List Emission :=
  if setting.prompts then [.out promptText] else []

/-- The text that a line is, added to what was read before. -/
def read? (buffer : List Char) (line : List UInt8) : Option Reading :=
  (Text.ofUtf8? line).map fun text => addLine buffer text.toList

/-- One more line of input: where the session stands then, and what it shows. -/
def step (setting : Setting) : State → List UInt8 → State × List Emission
  | .ended result, _ => (.ended result, [])
  | .reading buffer, line =>
    match read? buffer line with
    | none => (.ended (.error (.lineEditor (.stream Files.Error.notUtf8.message))), [])
    | some (.unfinished buffer) => (.reading buffer, [])
    | some (.entry text) =>
      let request := Request.ofEntry text
      if leaves request then (.ended (.ok ()), answer setting request)
      else (.reading [], answer setting request ++ prompt setting)

/-- The file that the session will ask for when it reads a line. -/
def wanted? (state : State) (line : List UInt8) : Option String :=
  match state with
  | .ended _ => none
  | .reading buffer => match read? buffer line with
    | some (.entry text) => (Request.ofEntry text).file?
    | _ => none

def steps (setting : Setting) (state : State) : List (List UInt8) → State × List Emission
  | [] => (state, [])
  | line :: rest =>
    let (next, shown) := step setting state line
    let (last, others) := steps setting next rest
    (last, shown ++ others)

theorem steps_append (setting : Setting) (state : State) (a b : List (List UInt8)) :
    steps setting state (a ++ b) =
      let (middle, shown) := steps setting state a
      let (last, others) := steps setting middle b
      (last, shown ++ others) := by
  induction a generalizing state with
  | nil => simp [steps]
  | cons line a ih => simp [steps, ih]

/-- The end of the input ends a session, whatever was not finished. -/
def State.result : State → Except Failure Unit
  | reading _ => .ok ()
  | ended result => result

/-- What is shown before the first line is read. -/
def opening (setting : Setting) : List Emission := banner ++ prompt setting

/-- A whole session on the bytes of its input: its result, and what it shows. -/
def run (setting : Setting) (input : List UInt8) : Except Failure Unit × List Emission :=
  let (last, shown) := steps setting (.reading []) (lines input)
  (last.result, opening setting ++ shown)

end Session

end LoxFrontEnd
