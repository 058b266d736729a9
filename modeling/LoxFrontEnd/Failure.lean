import LoxFrontEnd.Files.Error

/-! How a run ends.

Faults in a source are no failures: they are shown, and only the exit status
tells of them. A failure is what keeps a source or an entry from being read. -/
namespace LoxFrontEnd

inductive ExitStatus where
  | success
  /-- The command line names too many scripts. -/
  | usage
  /-- The script has faults. -/
  | data
  /-- The script cannot be read. -/
  | noInput
  /-- The session cannot go on. -/
  | software
  /-- The command line is not understood. -/
  | refused
deriving DecidableEq, Repr

def ExitStatus.code : ExitStatus → Nat
  | success => 0
  | refused => 2
  | usage => 64
  | data => 65
  | noInput => 66
  | software => 70

/-- Why the next line of a session cannot be read. -/
inductive LineError where
  | stream (description : String)
  | endOfInput
  | interrupted
deriving DecidableEq, Repr

def LineError.message : LineError → String
  | stream description => description
  | endOfInput => "EOF"
  | interrupted => "Interrupted"

inductive Failure where
  | unreadable (path : String) (reason : String)
  | lineEditor (e : LineError)
deriving DecidableEq, Repr

namespace Failure

def message : Failure → String
  | unreadable path reason => "could not read '" ++ path ++ "': " ++ reason
  | lineEditor e => "line editor error: " ++ e.message

def status : Failure → ExitStatus
  | unreadable _ _ => .noInput
  | lineEditor _ => .software

end Failure

end LoxFrontEnd
