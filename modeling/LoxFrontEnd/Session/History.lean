import LoxFrontEnd.Emission
import LoxFrontEnd.Files.Tree

/-! The history of a session.

Before a session starts, the directory of its history file is made and the file
is read. Neither need succeed: a failure is an event in the log and nothing more. -/
namespace LoxFrontEnd.Session.History

/-- The event of a directory that cannot be made. -/
def notMade (directory : String) (e : Files.Error) : Log.Event :=
  ⟨.warn, "lox::repl", "cannot create history directory",
    [("path", directory), ("error", e.message)]⟩

/-- The event of a history that cannot be read. -/
def notLoaded (path : String) (e : Files.Error) : Log.Event :=
  ⟨.debug, "lox::repl", "no history loaded", [("path", path), ("error", e.message)]⟩

/-- The directory of a history file. -/
def directory? (path : String) : Option String :=
  (Files.Path.parent? path.toList).map String.ofList

/-- The events of making the directory, if there is one to make, and reading the file. -/
def events (path : String) (made : Option Files.Error) (loaded : Except Files.Error String) :
    List Log.Event :=
  let directory := (directory? path).getD ""
  (made.map (notMade directory)).toList ++
    match loaded with
    | .ok _ => []
    | .error e => [notLoaded path e]

/-- Makes the directory and reads the file: the tree after that, and the events. -/
def prepare (t : Files.Tree) (path : String) : Files.Tree × List Log.Event :=
  let (whole, made) := match directory? path with
    | none => (t, none)
    | some directory => t.makePath directory
  (whole, events path made (whole.readText path))

/-- The file in the directory for the data of programs. -/
def inDataDirectory (data : String) : String :=
  Files.Path.join (Files.Path.join data "lox") ".lox_history"

/-- The directory for data is the named one if its path is absolute, and otherwise one in the
home directory; without both it is the current one. -/
def defaultPath (dataHome home : Option String) : String :=
  match dataHome.filter Files.Path.isAbsolute with
  | some data => inDataDirectory data
  | none => match home.filter (!·.isEmpty) with
    | some home => inDataDirectory (Files.Path.join home ".local/share")
    | none => inDataDirectory "."

end LoxFrontEnd.Session.History
