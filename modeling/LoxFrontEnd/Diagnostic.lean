import LoxFrontEnd.Token.Basic

/-! Diagnostics.

A fault in the source is reported with its line and its place and never stops the
scan. Reports are kept in the order in which they were made. -/
namespace LoxFrontEnd

/-- What can be wrong with a source text. -/
inductive Fault where
  /-- A character that starts no token. -/
  | unexpectedCharacter (c : Char)
  /-- A string that is still open where the source ends. -/
  | unterminatedString
deriving DecidableEq, Repr

def Fault.message : Fault → String
  | .unexpectedCharacter c => "Unexpected character: " ++ c.toString
  | .unterminatedString => "Unterminated string."

structure Diagnostic where
  line : Nat
  span : Span
  fault : Fault
  /-- A remark on where the fault lies; a scan makes none. -/
  location : String := ""
deriving DecidableEq, Repr

namespace Diagnostic

def message (d : Diagnostic) : String := d.fault.message

def toText (d : Diagnostic) : String :=
  "[line " ++ toString d.line ++ "] Error " ++ d.location ++ ": " ++ d.message

instance : ToString Diagnostic := ⟨toText⟩

end Diagnostic

/-- The diagnostics reported so far, oldest first. -/
structure Diagnostics where
  reported : List Diagnostic
deriving DecidableEq, Repr

namespace Diagnostics

def empty : Diagnostics := ⟨[]⟩

def report (ds : Diagnostics) (d : Diagnostic) : Diagnostics := ⟨ds.reported ++ [d]⟩

def size (ds : Diagnostics) : Nat := ds.reported.length

def isEmpty (ds : Diagnostics) : Bool := ds.reported.isEmpty

def hadError (ds : Diagnostics) : Bool := !ds.isEmpty

def last? (ds : Diagnostics) : Option Diagnostic := ds.reported.getLast?

end Diagnostics

end LoxFrontEnd
