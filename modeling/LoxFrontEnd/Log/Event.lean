import LoxFrontEnd.Text.Style

/-! Events for the log.

An event has a level, a target, which names the part of the program that it is
about, a message and named values. -/
namespace LoxFrontEnd.Log

inductive Level where
  | error | warn | info | debug | trace
deriving DecidableEq, Repr

namespace Level

/-- How much detail a level asks for. -/
def detail : Level → Nat
  | error => 1
  | warn => 2
  | info => 3
  | debug => 4
  | trace => 5

/-- The word for a level, five letters wide. -/
def tag : Level → String
  | error => "ERROR"
  | warn => " WARN"
  | info => " INFO"
  | debug => "DEBUG"
  | trace => "TRACE"

def colour : Level → Text.Colour
  | error => .red
  | warn => .yellow
  | info => .green
  | debug => .blue
  | trace => .magenta

end Level

structure Event where
  level : Level
  target : String
  message : String
  fields : List (String × String)
deriving DecidableEq, Repr

namespace Event

/-- The log line of an event that happened at the given time. -/
def toText (e : Event) (time : String) : String :=
  let level := Text.control e.level.colour.code ++ e.level.tag ++ Text.control 0
  let fields := e.fields.map fun (name, value) =>
    " " ++ Text.italic name ++ Text.dimmed "=" ++ value
  time ++ " " ++ level ++ " " ++ Text.dimmed e.target ++ Text.dimmed ":" ++ " " ++ e.message ++
    String.join fields

end Event

end LoxFrontEnd.Log
