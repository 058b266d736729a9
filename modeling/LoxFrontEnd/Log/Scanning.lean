import LoxFrontEnd.Log.Event
import LoxFrontEnd.Scan
import LoxFrontEnd.Text.Quoted

/-! The log of a scan.

Every token and every fault is an event when it is found, and the end of the scan
is one more. -/
namespace LoxFrontEnd

def Finding.event : Finding → Log.Event
  | .token t => ⟨.trace, "lox_syntax::lexer::scanner", "token",
      [("kind", t.kind.name), ("lexeme", Text.quote t.lexeme), ("line", toString t.line)]⟩
  | .fault d => ⟨.trace, "lox_syntax::diagnostics", "lexical error",
      [("line", toString d.line), ("error", d.message)]⟩

/-- The event at the end of a scan: how many tokens and faults there are, and the last line. -/
def Scanned.event (s : Scanned) (lastLine : Nat) : Log.Event :=
  ⟨.debug, "lox_syntax::lexer::scanner", "scan complete",
    [("tokens", toString s.tokens.length), ("errors", toString s.diagnostics.size),
      ("lines", toString lastLine)]⟩

def scanEvents (source : String) : List Log.Event :=
  (findings source).map Finding.event ++ [(scan source).event (endToken source).line]

end LoxFrontEnd
