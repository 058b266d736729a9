import LoxFrontEnd.Diagnostic
import LoxFrontEnd.Number.Nearest
import LoxFrontEnd.Segment
import LoxFrontEnd.Text.Offset

/-! Scanning.

The segments of a source are laid out one after the other behind a cursor that
counts bytes and lines. Tokens and faults are found on the way; blanks and
comments only move the cursor. A scan is the tokens found, closed by one token
for the end of the source, and the diagnostics of the faults. -/
namespace LoxFrontEnd

/-- A place in the source: bytes before it, and its line. -/
structure Cursor where
  offset : Nat
  line : Nat
deriving DecidableEq, Repr

namespace Cursor

def start : Cursor := ⟨0, 1⟩

/-- The place behind a text that begins at the cursor. -/
def advance (k : Cursor) (text : List Char) : Cursor :=
  ⟨k.offset + Text.width text, k.line + text.count '\n'⟩

@[simp] theorem advance_nil (k : Cursor) : k.advance [] = k := rfl

theorem advance_append (k : Cursor) (a b : List Char) :
    k.advance (a ++ b) = (k.advance a).advance b := by
  simp [advance, Nat.add_assoc]

end Cursor

/-- The value of a token, read off its text: a string without its quotes, the number that
a numeral denotes, and nothing otherwise. -/
def Literal.ofLexeme (kind : Kind) (text : List Char) : Literal :=
  match kind with
  | .string => .text (String.ofList (text.drop 1).dropLast)
  | .number => .number (Number.ofNumeral text)
  | _ => .none

/-- What a scan finds. -/
inductive Finding where
  | token (t : Token)
  | fault (d : Diagnostic)
deriving BEq, Repr

namespace Finding

def token? : Finding → Option Token
  | token t => some t
  | fault _ => none

def diagnostic? : Finding → Option Diagnostic
  | token _ => none
  | fault d => some d

/-- What a segment at the cursor amounts to. Its line is the one on which it ends. -/
def ofSegment? (k : Cursor) (s : Segment) : Option Finding :=
  let stop := k.advance s.text
  let span : Span := ⟨k.offset, stop.offset⟩
  match s with
  | .token kind text =>
    some (token ⟨kind, String.ofList text, Literal.ofLexeme kind text, stop.line, span⟩)
  | .rejected c => some (fault { line := stop.line, span, fault := .unexpectedCharacter c })
  | .unterminated _ => some (fault { line := stop.line, span, fault := .unterminatedString })
  | .blank _ | .comment _ => none

/-- The findings of segments laid out from the cursor on. -/
def ofSegments (k : Cursor) : List Segment → List Finding
  | [] => []
  | s :: rest => (ofSegment? k s).toList ++ ofSegments (k.advance s.text) rest

theorem ofSegments_append (k : Cursor) (a b : List Segment) :
    ofSegments k (a ++ b) =
      ofSegments k a ++ ofSegments (k.advance (a.flatMap Segment.text)) b := by
  induction a generalizing k with
  | nil => rfl
  | cons s a ih => simp [ofSegments, ih, Cursor.advance_append]

end Finding

/-- What a source holds, in the order of the source. -/
def findings (source : String) : List Finding :=
  Finding.ofSegments .start (segments source.toList)

/-- The token that closes every scan. -/
def endToken (source : String) : Token :=
  let stop := Cursor.start.advance source.toList
  ⟨.eof, "", .none, stop.line, ⟨stop.offset, stop.offset⟩⟩

/-- The tokens of a source, its end included, and its diagnostics. -/
structure Scanned where
  tokens : List Token
  diagnostics : Diagnostics
deriving BEq, Repr

namespace Scanned

def hadError (s : Scanned) : Bool := s.diagnostics.hadError

end Scanned

def scan (source : String) : Scanned where
  tokens := (findings source).filterMap Finding.token? ++ [endToken source]
  diagnostics := ⟨(findings source).filterMap Finding.diagnostic?⟩

/-- Scans every source by itself. -/
def scanAll (sources : List String) : List Scanned := sources.map scan

end LoxFrontEnd
