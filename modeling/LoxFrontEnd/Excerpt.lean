import LoxFrontEnd.Scan
import LoxFrontEnd.Text.WhiteSpace

/-! Excerpts.

An excerpt shows the source line on which a span starts and marks the part of
the span that lies on this line. Carriage returns at the end of the line are not
shown, and a blank line has no excerpt. -/
namespace LoxFrontEnd

structure Excerpt where
  /-- The line as it is shown. -/
  line : List Char
  /-- The number of characters before the mark. -/
  column : Nat
  /-- The number of marks. -/
  marks : Nat
deriving DecidableEq, Repr

namespace Excerpt

/-- The end of a text after its last newline. -/
def lastLine (cs : List Char) : List Char := (cs.reverse.takeWhile (· != '\n')).reverse

/-- The beginning of a text before its first newline. -/
def firstLine (cs : List Char) : List Char := cs.takeWhile (· != '\n')

def trimReturns (cs : List Char) : List Char := (cs.reverse.dropWhile (· == '\r')).reverse

/-- The excerpt of a span. There is none if the span does not start between two characters
of the source. A span that ends before it starts, or inside a character of the line, marks
nothing. -/
def ofSpan (source : String) (span : Span) : Except Text.BadRange (Option Excerpt) :=
  match Text.splitAt? span.start source.toList with
  | none => .ok none
  | some (before, rest) =>
    let left := lastLine before
    let right := firstLine rest
    let line := trimReturns (left ++ right)
    if (Text.trim line).isEmpty then .ok none
    else do
      let stop := min span.stop (span.start + Text.width right)
      let marked ← Text.slice span.start stop source.toList
      return some ⟨line, left.length, max marked.length 1⟩

/-- Two lines, indented by four blanks: the text, and carets under the marked part. -/
def toText (e : Excerpt) : String :=
  "    " ++ String.ofList e.line ++ "\n    " ++ String.ofList (List.replicate e.column ' ') ++
    String.ofList (List.replicate e.marks '^')

instance : ToString Excerpt := ⟨toText⟩

end Excerpt

end LoxFrontEnd
