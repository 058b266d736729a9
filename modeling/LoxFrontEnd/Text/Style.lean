/-! Coloured text for a terminal.

A style is a pair of control sequences that stand around a text. Styles nest:
the one applied last stands outside. -/
namespace LoxFrontEnd.Text

inductive Colour where
  | red | green | yellow | blue | magenta | cyan | white
  | brightGreen | brightYellow | brightCyan
deriving DecidableEq, Repr

/-- The parameter that selects the colour of the letters. -/
def Colour.code : Colour → Nat
  | .red => 31
  | .green => 32
  | .yellow => 33
  | .blue => 34
  | .magenta => 35
  | .cyan => 36
  | .white => 37
  | .brightGreen => 92
  | .brightYellow => 93
  | .brightCyan => 96

inductive Style where
  | colour (c : Colour)
  | bold
  | dimmed
  | italic
deriving DecidableEq, Repr

/-- The control sequence that sets one parameter of the display. -/
def control (parameter : Nat) : String := "\x1b[" ++ toString parameter ++ "m"

def Style.opening : Style → String
  | .colour c => control c.code
  | .bold => control 1
  | .dimmed => control 2
  | .italic => control 3

/-- A colour ends by selecting the default colour, any other style by a full reset. -/
def Style.closing : Style → String
  | .colour _ => control 39
  | .bold | .dimmed | .italic => control 0

def Style.paint (s : Style) (text : String) : String := s.opening ++ text ++ s.closing

def Colour.paint (c : Colour) (text : String) : String := (Style.colour c).paint text

def bold (text : String) : String := Style.bold.paint text

def dimmed (text : String) : String := Style.dimmed.paint text

def italic (text : String) : String := Style.italic.paint text

/-- The text on the left of a column of `n` characters; a longer one keeps its length. -/
def padRight (n : Nat) (text : String) : String :=
  text ++ String.ofList (List.replicate (n - text.length) ' ')

end LoxFrontEnd.Text
