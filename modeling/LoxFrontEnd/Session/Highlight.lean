import LoxFrontEnd.Scan
import LoxFrontEnd.Text.Style
import LoxFrontEnd.Text.WhiteSpace

/-! Highlighting.

A line is shown with its tokens coloured by kind and everything else as it is. A
line that starts with a dot is taken for a command and has one colour. The tokens
are put in at their spans (`paintLine`), which comes to the same as painting the
segments of the line one after the other (`highlight`). -/
namespace LoxFrontEnd.Session

/-- The styles of a kind of token, the innermost first. -/
def styles : Kind → List Text.Style
  | .keyword .true | .keyword .false | .keyword .nil | .keyword .this => [.colour .blue]
  | .keyword _ => [.colour .magenta, .bold]
  | .string => [.colour .green]
  | .number | .bracket _ => [.colour .yellow]
  | .operator _ => [.colour .cyan]
  | .separator _ | .identifier | .eof => []

/-- The text of a token in the styles of its kind. -/
def paintToken (kind : Kind) (text : String) : String :=
  (styles kind).foldl (fun painted style => style.paint painted) text

/-- Is the line taken for a command? -/
def startsWithDot (line : String) : Bool := (Text.trimStart line.toList).head? = some '.'

/-! ### Tokens at their spans -/

/-- The line from an offset on with the given tokens painted. The text between them is copied
as it is. -/
def paintFrom (line : List Char) (offset : Nat) : List Token → Except Text.BadRange String
  | [] => (Text.slice offset (Text.width line) line).map String.ofList
  | t :: rest => do
    let gap ← Text.slice offset t.span.start line
    let others ← paintFrom line t.span.stop rest
    return String.ofList gap ++ (paintToken t.kind t.lexeme ++ others)

/-- The line as it is shown while it is typed. -/
def paintLine (line : String) : Except Text.BadRange String :=
  if startsWithDot line then .ok (Text.Colour.magenta.paint line)
  else paintFrom line.toList 0 (scan line).tokens

/-! ### Segments one after the other -/

def paintSegment : Segment → String
  | .token kind text => paintToken kind (String.ofList text)
  | s => String.ofList s.text

def highlight (line : String) : String :=
  if startsWithDot line then Text.Colour.magenta.paint line
  else String.join ((segments line.toList).map paintSegment)

end LoxFrontEnd.Session
