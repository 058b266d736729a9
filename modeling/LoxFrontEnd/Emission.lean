import LoxFrontEnd.Log.Event

/-! Emissions.

What a run shows is a list of emissions in the order in which they happen: text
for the output, text for the error stream, and events for the log. -/
namespace LoxFrontEnd

inductive Emission where
  | out (text : String)
  | err (text : String)
  | log (event : Log.Event)
deriving DecidableEq, Repr

namespace Emission

def outText : Emission → String
  | out text => text
  | _ => ""

/-- The text for the error stream; `line` turns an event into a text or into nothing. -/
def errText (line : Log.Event → Option String) : Emission → String
  | out _ => ""
  | err text => text
  | log event => (line event).getD ""

/-- Everything written to the output. -/
def stdout (es : List Emission) : String := String.join (es.map outText)

/-- Everything written to the error stream. -/
def stderr (line : Log.Event → Option String) (es : List Emission) : String :=
  String.join (es.map (errText line))

theorem stdout_append (a b : List Emission) : stdout (a ++ b) = stdout a ++ stdout b := by
  simp [stdout, String.join_append]

theorem stderr_append (line : Log.Event → Option String) (a b : List Emission) :
    stderr line (a ++ b) = stderr line a ++ stderr line b := by
  simp [stderr, String.join_append]

end Emission

end LoxFrontEnd
