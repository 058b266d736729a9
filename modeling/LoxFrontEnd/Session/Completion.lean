import LoxFrontEnd.Session.Command
import LoxFrontEnd.Text.Offset
import LoxFrontEnd.Text.Style
import LoxFrontEnd.Token.Kind

/-! Completion.

The word under completion is the run of letters, digits and dots that ends at the
place of typing. The reserved words and the commands that begin with it are
offered, and the first that is longer is hinted at. -/
namespace LoxFrontEnd.Session

/-- The words that are offered, in the order in which they are offered. -/
def words : List String := Keyword.all.map Keyword.text ++ Command.all.map Command.word

def isWordChar (c : Char) : Bool := c.isAlphanum || c == '.'

/-- The offset at which the word starts that ends at an offset: behind the nearest character
before it that belongs to no word. -/
def wordStart (line : String) (offset : Nat) : Except Text.BadRange Nat :=
  (Text.slice 0 offset line.toList).map fun before =>
    match (Text.indicesFrom 0 before).reverse.find? fun p => !isWordChar p.2 with
    | some (start, c) => start + c.utf8Size
    | none => 0

/-- A word that is offered, and the part of it that is still to be typed. -/
structure Candidate where
  word : String
  rest : String
deriving DecidableEq, Repr

/-- The part of a word behind as many bytes as have been typed. -/
def restOf (typed : List Char) (word : String) : Except Text.BadRange String :=
  (Text.slice (Text.width typed) (Text.width word.toList) word.toList).map String.ofList

def candidate (typed : List Char) (word : String) : Except Text.BadRange Candidate :=
  (restOf typed word).map fun rest => ⟨word, rest⟩

/-- What is offered at a place of a line. -/
structure Completion where
  /-- The offset at which the rest of a candidate is put in. -/
  place : Nat
  candidates : List Candidate
deriving DecidableEq, Repr

/-- The words that begin with the one that ends at an offset; an empty word has none. -/
def completion (line : String) (offset : Nat) : Except Text.BadRange Completion := do
  let start ← wordStart line offset
  let typed ← Text.slice start offset line.toList
  if typed.isEmpty then return ⟨offset, []⟩
  let offered := words.filter fun word => typed.isPrefixOf word.toList
  return ⟨offset, ← offered.mapM (candidate typed)⟩

/-- The candidates for the word that ends at an offset. -/
def complete (line : String) (offset : Nat) : Except Text.BadRange (List Candidate) :=
  (completion line offset).map Completion.candidates

/-- What the first longer word adds to the word at the end of the line, if that has two bytes
and typing goes on there. -/
def hint (line : String) (offset : Nat) : Except Text.BadRange (Option String) := do
  let stop := Text.width line.toList
  if offset < stop then return none
  let start ← wordStart line offset
  let typed ← Text.slice start stop line.toList
  if Text.width typed < 2 then return none
  let longer := words.find? fun word =>
    typed.isPrefixOf word.toList && Text.width typed < Text.width word.toList
  match longer with
  | none => return none
  | some word => return some (Text.dimmed (← restOf typed word))

end LoxFrontEnd.Session
