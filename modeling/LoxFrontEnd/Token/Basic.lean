import LoxFrontEnd.Number.Text
import LoxFrontEnd.Token.Kind

/-! Tokens.

A token is a piece of the source with its kind, the value it denotes, the line on
which it ends, and its place in the source. -/
namespace LoxFrontEnd

/-- A stretch of the source, in bytes from its beginning. -/
structure Span where
  start : Nat
  /-- The offset after the last byte. -/
  stop : Nat
deriving DecidableEq, Repr

namespace Span

def length (s : Span) : Nat := s.stop - s.start

def isEmpty (s : Span) : Bool := s.start == s.stop

end Span

/-- The value that a token denotes. -/
inductive Literal where
  | none
  | text (content : String)
  | number (value : Number)
deriving BEq, Inhabited, Repr

namespace Literal

def isNone : Literal → Bool
  | none => true
  | _ => false

def text? : Literal → Option String
  | text content => some content
  | _ => Option.none

def number? : Literal → Option Number
  | number value => some value
  | _ => Option.none

/-- A text stands for itself, without quotes. -/
def toText : Literal → String
  | none => "null"
  | text content => content
  | number value => value.toText

instance : ToString Literal := ⟨toText⟩

end Literal

structure Token where
  kind : Kind
  /-- The text of the source that the token covers. -/
  lexeme : String
  literal : Literal
  /-- The line of the token's last character, counted from one. -/
  line : Nat
  span : Span
deriving BEq, Repr

namespace Token

/-- Kind, lexeme and value, with a blank between each two. -/
def toText (t : Token) : String := t.kind.name ++ " " ++ t.lexeme ++ " " ++ t.literal.toText

instance : ToString Token := ⟨toText⟩

end Token

end LoxFrontEnd
