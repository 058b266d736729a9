import LoxFrontEnd.CommandLine.Arguments
import LoxFrontEnd.CommandLine.Run
import LoxFrontEnd.Diagnostic
import LoxFrontEnd.Emission
import LoxFrontEnd.Excerpt
import LoxFrontEnd.Expr
import LoxFrontEnd.Failure
import LoxFrontEnd.Files.Error
import LoxFrontEnd.Files.Path
import LoxFrontEnd.Files.Tree
import LoxFrontEnd.Listing
import LoxFrontEnd.Log.Event
import LoxFrontEnd.Log.Filter
import LoxFrontEnd.Log.Scanning
import LoxFrontEnd.Main
import LoxFrontEnd.Number.Basic
import LoxFrontEnd.Number.Nearest
import LoxFrontEnd.Number.Reading
import LoxFrontEnd.Number.Shortest
import LoxFrontEnd.Number.Text
import LoxFrontEnd.Proofs.CommandLine.Script
import LoxFrontEnd.Proofs.Excerpt
import LoxFrontEnd.Proofs.Expr
import LoxFrontEnd.Proofs.Lexical.Clean
import LoxFrontEnd.Proofs.Lexical.Content
import LoxFrontEnd.Proofs.Lexical.Coverage
import LoxFrontEnd.Proofs.Lexical.Cut
import LoxFrontEnd.Proofs.Lexical.Item
import LoxFrontEnd.Proofs.Lexical.LineEnd
import LoxFrontEnd.Proofs.Lexical.LineNumber
import LoxFrontEnd.Proofs.Lexical.LongestMatch
import LoxFrontEnd.Proofs.Lexical.Lookahead
import LoxFrontEnd.Proofs.Lexical.Numbers
import LoxFrontEnd.Proofs.Lexical.Placement
import LoxFrontEnd.Proofs.Lexical.Recovery
import LoxFrontEnd.Proofs.Lexical.Rescan
import LoxFrontEnd.Proofs.Lexical.Respaced
import LoxFrontEnd.Proofs.Lexical.Returns
import LoxFrontEnd.Proofs.Lexical.Scanner
import LoxFrontEnd.Proofs.Lexical.Shift
import LoxFrontEnd.Proofs.Lexical.SourceLine
import LoxFrontEnd.Proofs.Lexical.WhiteSpace
import LoxFrontEnd.Proofs.Listing
import LoxFrontEnd.Proofs.Number.Interval
import LoxFrontEnd.Proofs.Number.Reading
import LoxFrontEnd.Proofs.Number.Text
import LoxFrontEnd.Proofs.Session.AcceptedWord
import LoxFrontEnd.Proofs.Session.Command
import LoxFrontEnd.Proofs.Session.CommandGrammar
import LoxFrontEnd.Proofs.Session.CompletedWord
import LoxFrontEnd.Proofs.Session.Completion
import LoxFrontEnd.Proofs.Session.Continuation
import LoxFrontEnd.Proofs.Session.Entries
import LoxFrontEnd.Proofs.Session.Finishing
import LoxFrontEnd.Proofs.Session.Highlight
import LoxFrontEnd.Proofs.Session.Lines
import LoxFrontEnd.Proofs.Session.Nesting
import LoxFrontEnd.Proofs.Session.OneLine
import LoxFrontEnd.Proofs.Session.Script
import LoxFrontEnd.Proofs.Text.LowerCase
import LoxFrontEnd.Proofs.Text.Terminal
import LoxFrontEnd.Scan
import LoxFrontEnd.Scanner
import LoxFrontEnd.Segment
import LoxFrontEnd.Session.Balance
import LoxFrontEnd.Session.Command
import LoxFrontEnd.Session.Completion
import LoxFrontEnd.Session.Entry
import LoxFrontEnd.Session.Help
import LoxFrontEnd.Session.Highlight
import LoxFrontEnd.Session.History
import LoxFrontEnd.Session.Run
import LoxFrontEnd.Text.LowerCase
import LoxFrontEnd.Text.Offset
import LoxFrontEnd.Text.Quoted
import LoxFrontEnd.Text.Style
import LoxFrontEnd.Text.Utf8
import LoxFrontEnd.Text.Visible
import LoxFrontEnd.Text.WhiteSpace
import LoxFrontEnd.Token.Basic
import LoxFrontEnd.Token.Kind
