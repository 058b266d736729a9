import LoxFrontEnd.Emission
import LoxFrontEnd.Session.Command

/-! The standing texts of a session. -/
namespace LoxFrontEnd

def version : String := "0.1.0"

namespace Session

def line (text : String) : Emission := .out (text ++ "\n")

/-- What a session shows first. -/
def banner : List Emission :=
  [line ("  " ++ Text.bold (Text.Colour.white.paint "Lox") ++ " " ++ Text.dimmed "v" ++ " " ++
      Text.Colour.brightYellow.paint version),
    line ("  " ++ Text.dimmed "Type" ++ " " ++ Text.Colour.cyan.paint ".help" ++ " " ++
      Text.dimmed "for available commands")]

def promptText : String := Text.bold (Text.Colour.brightGreen.paint ">") ++ " "

def versionLine : Emission :=
  line (Text.bold (Text.Colour.brightCyan.paint "Lox") ++ ": " ++ Text.Colour.yellow.paint version)

/-- Erases the screen and goes to its first place. -/
def clearing : Emission := .out "\x1b[2J\x1b[H"

/-- A word in a column of sixteen characters, and what it means. -/
def helpRow (colour : Text.Colour) (word meaning : String) : Emission :=
  line ("  " ++ colour.paint (Text.padRight 16 word) ++ " " ++ Text.dimmed meaning)

def heading (text : String) : List Emission :=
  [line "", line (Text.bold (Text.Colour.white.paint text)), line ""]

/-- The keys that do something while a line is typed. -/
def shortcuts : List (String × String) :=
  [("Ctrl+C", "Cancel current input"), ("Ctrl+D", "Exit REPL"), ("Tab", "Autocomplete")]

def help : List Emission :=
  heading "REPL Commands:" ++
    Command.all.map (fun c => helpRow .cyan c.synopsis c.description) ++
    heading "Keyboard Shortcuts:" ++
    shortcuts.map (fun (key, meaning) => helpRow .yellow key meaning) ++
    [line ""]

end Session

end LoxFrontEnd
