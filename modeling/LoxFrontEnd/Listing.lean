import LoxFrontEnd.Emission
import LoxFrontEnd.Excerpt

/-! Listings.

Tokens are written to the output, one to a line, and diagnostics to the error
stream, each with an excerpt of its line. -/
namespace LoxFrontEnd.Listing

def token (t : Token) : Emission := .out (t.toText ++ "\n")

def headline (d : Diagnostic) : Emission :=
  .err (Text.bold (Text.Colour.red.paint d.toText) ++ "\n")

def excerpt (e : Excerpt) : Emission := .err (Text.dimmed e.toText ++ "\n")

/-- A diagnostic with the excerpt of its span in the source. -/
def diagnostic (source : String) (d : Diagnostic) : Except Text.BadRange (List Emission) :=
  (Excerpt.ofSpan source d.span).map fun e => headline d :: (e.map excerpt).toList

/-- All tokens and then all diagnostics of a scan. -/
def scanned (source : String) (s : Scanned) : List Emission :=
  s.tokens.map token ++
    s.diagnostics.reported.flatMap fun d => ((diagnostic source d).toOption.getD [headline d])

end LoxFrontEnd.Listing
