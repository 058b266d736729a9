import LoxFrontEnd.Files.Error
import LoxFrontEnd.Files.Path
import LoxFrontEnd.Text.Utf8

/-! A tree of files.

Files and directories stand at places, which are rows of names from the root. A
path leads to a place name by name, and every name but the last must be that of
a directory. -/
namespace LoxFrontEnd.Files

inductive Entry where
  | file (contents : List UInt8)
  | directory
deriving DecidableEq, Repr

/-- The greatest number of bytes of one name. -/
def nameLimit : Nat := 255

/-- The number of bytes that no path reaches. -/
def pathLimit : Nat := 4096

/-- A text that can be a path at all. -/
def checkPath (path : String) : Except Error Unit :=
  if '\x00' ∈ path.toList then .error .nulInName
  else if path.isEmpty then .error .notFound
  else if pathLimit ≤ path.utf8ByteSize then .error .nameTooLong
  else .ok ()

/-- The names on the way from the root. -/
abbrev Place := List String

structure Tree where
  entries : List (Place × Entry)
  /-- The place from which relative paths lead. -/
  current : Place
deriving Repr

namespace Tree

/-- What stands at a place; the root is always a directory. -/
def entry? (t : Tree) (place : Place) : Option Entry :=
  if place.isEmpty then some .directory else t.entries.lookup place

def isDirectoryAt (t : Tree) (place : Place) : Bool := t.entry? place == some .directory

def add (t : Tree) (place : Place) (entry : Entry) : Tree :=
  { t with entries := t.entries ++ [(place, entry)] }

/-- Puts a file at a place, with the directories on the way to it that are missing. -/
def put (t : Tree) (place : Place) (contents : List UInt8) : Tree :=
  let above := (List.range place.length).map place.take
  let missing := above.filter fun p => (t.entry? p).isNone
  (missing.foldl (fun t p => t.add p .directory) t).add place (.file contents)

/-- The directories of a tree, in the order in which they came into it. -/
def directories (t : Tree) : List Place :=
  (t.entries.filter fun (_, entry) => entry == .directory).map Prod.fst

/-! ### Paths -/

/-- The place to which the names lead from a place. -/
def walk (t : Tree) (place : Place) : List String → Except Error Place
  | [] => .ok place
  | name :: rest =>
    if !t.isDirectoryAt place then .error .notADirectory
    else if name = "" ∨ name = "." then walk t place rest
    else if name = ".." then walk t place.dropLast rest
    else if nameLimit < name.utf8ByteSize then .error .nameTooLong
    else if (t.entry? (place ++ [name])).isNone then .error .notFound
    else walk t (place ++ [name]) rest

/-- The place at which a path begins. -/
def origin (t : Tree) (path : String) : Place := if Path.isAbsolute path then [] else t.current

/-- The place to which a path leads. -/
def locate (t : Tree) (path : String) : Except Error Place := do
  checkPath path
  t.walk (t.origin path) (Path.names path)

/-! ### Operations -/

def read (t : Tree) (path : String) : Except Error (List UInt8) := do
  match t.entry? (← t.locate path) with
  | some (.file contents) => .ok contents
  | some .directory => .error .isADirectory
  | none => .error .notFound

/-- The contents of a file, if they are text. -/
def readText (t : Tree) (path : String) : Except Error String := do
  match Text.ofUtf8? (← t.read path) with
  | some text => .ok text
  | none => .error .notUtf8

/-- Does the path lead anywhere? -/
def contains (t : Tree) (path : String) : Bool := (t.locate path).isOk

def isDirectory (t : Tree) (path : String) : Bool :=
  match t.locate path with
  | .ok place => t.isDirectoryAt place
  | .error _ => false

/-- Makes the directory that a path names, in a directory that exists. -/
def makeDirectory (t : Tree) (path : String) : Except Error Tree := do
  checkPath path
  let names := (Path.names path).reverse.dropWhile (· == "")
  let place ← t.walk (t.origin path) (names.drop 1).reverse
  match names.head? with
  | none | some "." | some ".." =>
    if t.isDirectoryAt place then .error .alreadyExists else .error .notADirectory
  | some name =>
    if !t.isDirectoryAt place then .error .notADirectory
    else if nameLimit < name.utf8ByteSize then .error .nameTooLong
    else if (t.entry? (place ++ [name])).isSome then .error .alreadyExists
    else .ok (t.add (place ++ [name]) .directory)

/-- Makes the first of the directories, and before it the ones after it in the row as far as
they are missing. A directory that is there already is no error, and what was made before an
error stays. -/
def makeDirectories (t : Tree) : List String → Tree × Option Error
  | [] => (t, none)
  | path :: above =>
    match t.makeDirectory path with
    | .ok made => (made, none)
    | .error .notFound =>
      match t.makeDirectories above with
      | (made, some e) => (made, some e)
      | (made, none) => match made.makeDirectory path with
        | .ok whole => (whole, none)
        | .error e => (made, if made.isDirectory path then none else some e)
    | .error e => (t, if t.isDirectory path then none else some e)

/-- Makes a directory with all directories above it. -/
def makePath (t : Tree) (path : String) : Tree × Option Error :=
  t.makeDirectories ((Path.ancestors path.toList).map String.ofList)

end Tree

end LoxFrontEnd.Files
