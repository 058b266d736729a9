import LoxFrontEnd.Text.LowerCase
import LoxFrontEnd.Text.WhiteSpace

/-! Commands of a session.

A command is a dot and a name, in letters of either case, and an argument after
white space. -/
namespace LoxFrontEnd.Session

inductive Command where
  | help | exit | clear | version | load
deriving DecidableEq, Repr

namespace Command

def all : List Command := [help, exit, clear, version, load]

/-- The names of a command, the usual one first. -/
def names : Command → List String
  | help => ["help", "h", "?"]
  | exit => ["exit", "quit", "q"]
  | clear => ["clear", "cls"]
  | version => ["version", "v"]
  | load => ["load", "l"]

/-- The usual way to enter a command. -/
def word : Command → String
  | help => ".help"
  | exit => ".exit"
  | clear => ".clear"
  | version => ".version"
  | load => ".load"

/-- How a command is entered with its argument. -/
def synopsis : Command → String
  | load => load.word ++ " <file>"
  | c => c.word

def description : Command → String
  | help => "Show this help message"
  | exit => "Exit the REPL"
  | clear => "Clear the screen"
  | version => "Show version information"
  | load => "Scan a Lox file and print its tokens"

def ofName? (name : String) : Option Command := all.find? fun c => c.names.contains name

/-- A command with its argument, if the text without the white space around it is one. The
argument has no white space at its ends and is never empty. -/
def parse (input : String) : Option (Command × Option String) :=
  match Text.trim input.toList with
  | '.' :: rest =>
    let name := rest.takeWhile (!Text.isWhiteSpace ·)
    let argument := Text.trim (rest.dropWhile (!Text.isWhiteSpace ·))
    (ofName? (String.ofList (Text.lowerCase name))).map fun c =>
      (c, if argument.isEmpty then none else some (String.ofList argument))
  | _ => none

end Command

end LoxFrontEnd.Session
