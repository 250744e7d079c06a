import LetLang.Continuation
import LetLang.Draft
import LetLang.Evaluation
import LetLang.Expr
import LetLang.Expr.Parser
import LetLang.Fault
import LetLang.Main
import LetLang.Notice
import LetLang.Operator
import LetLang.Options
import LetLang.Program
import LetLang.Reporter
import LetLang.Runner
import LetLang.Session
import LetLang.Shell
import LetLang.Store
import LetLang.Text.Blank
import LetLang.Text.Catalogue
import LetLang.Text.Catalogue.BaseMembers
import LetLang.Text.Catalogue.Member
import LetLang.Text.Catalogue.NumberMembers
import LetLang.Text.Catalogue.OperationMembers
import LetLang.Text.Catalogue.TextMembers
import LetLang.Text.Digit
import LetLang.Text.Layout
import LetLang.Text.Layout.Number
import LetLang.Text.Line
import LetLang.Text.Numeral
import LetLang.Text.Paint
import LetLang.Text.Printable
import LetLang.Text.Quoted
import LetLang.Text.Subject
import LetLang.Text.Template
import LetLang.Text.Utf8
import LetLang.Token
import LetLang.Token.Lexer
import LetLang.Token.Stream
import LetLang.Value
import LetLang.Proofs.Budget
import LetLang.Proofs.Scopes
import LetLang.Proofs.Immutable
import LetLang.Proofs.Immutable.Stage
import LetLang.Proofs.Immutable.Agreement
import LetLang.Proofs.Texts
import LetLang.Proofs.History
import LetLang.Proofs.History.Frozen
import LetLang.Proofs.History.Closures
import LetLang.Proofs.Grammar
import LetLang.Proofs.Grammar.Greedy
import LetLang.Proofs.Grammar.Dominance
import LetLang.Proofs.Stream
import LetLang.Proofs.Parsing.Soundness
import LetLang.Proofs.Parsing.Completeness
import LetLang.Proofs.Parsing.Acceptance
import LetLang.Proofs.Lexing
import LetLang.Proofs.Parsing.Moved
import LetLang.Proofs.Texts.Pieces
import LetLang.Proofs.Lexing.Gaps
import LetLang.Proofs.Lexing.Language
import LetLang.Proofs.Lexing.Lossless
import LetLang.Proofs.Parsing.Stems
import LetLang.Proofs.Display
import LetLang.Proofs.Sessions.Courses
import LetLang.Proofs.Sessions.Runs
import LetLang.Proofs.Sessions
import LetLang.Proofs.Lexing.Layouts
import LetLang.Proofs.Texts.Layouts
import LetLang.Proofs.Shells.Answers
import LetLang.Proofs.Shells.Transcripts
import LetLang.Proofs.Shells
import LetLang.Proofs.Lexing.Broken
import LetLang.Proofs.Parsing.Inherited
import LetLang.Proofs.Parsing.Faults
import LetLang.Proofs.Origins
import LetLang.Proofs.Inside
import LetLang.Proofs.Legible
import LetLang.Proofs.Reports
import LetLang.Proofs.Causes
import LetLang.Proofs.Sessions.Places
import LetLang.Proofs.Shells.Replies
import LetLang.Proofs.Containment
import LetLang.Proofs.Files
import LetLang.Proofs.Locations
import LetLang.Proofs.Locations.Columns
import LetLang.Proofs.Traces
import LetLang.Proofs.Printing
import LetLang.Proofs.Shells.EndOfInput
import LetLang.Proofs.History.Lettings
import LetLang.Proofs.Parsing.Lookahead
import LetLang.Proofs.Parsing.Refusals
import LetLang.Proofs.Parsing.Prefixes
import LetLang.Proofs.Related
import LetLang.Proofs.Related.Evaluation
import LetLang.Proofs.Related.Application
import LetLang.Proofs.Related.Mentions
import LetLang.Proofs.Arithmetic
import LetLang.Proofs.Lexing.Foreign
import LetLang.Proofs.Parsing.OneAhead
import LetLang.Proofs.Lexing.Fragments
import LetLang.Proofs.Parsing.Sources
import LetLang.Proofs.Stream.Cursor
import LetLang.Proofs.Sessions.Ignored
import LetLang.Proofs.Lexing.Respaced
import LetLang.Proofs.Continued
import LetLang.Proofs.Lexing.Readers
import LetLang.Proofs.Scopes.Visibility
import LetLang.Proofs.Literals
import LetLang.Proofs.Parsing.Currying
import LetLang.Proofs.Related.Hosts
import LetLang.Proofs.Related.Currying
import LetLang.Proofs.Trees
import LetLang.Proofs.Parsing.Progress
import LetLang.Proofs.Parsing.Termination
import LetLang.Proofs.Texts.Rounds
import LetLang.Proofs.Sessions.Rounds
import LetLang.Proofs.Texts.Limits
import LetLang.Proofs.Trees.Nesting
import LetLang.Proofs.History.Visits
import LetLang.Proofs.History.Depths
import LetLang.Proofs.Renderings
import LetLang.Proofs.Diagnoses
import LetLang.Proofs.Handling
import LetLang.Proofs.Paint
import LetLang.Proofs.Escapes
import LetLang.Proofs.Sessions.Escapes
import LetLang.Proofs.Shells.Escapes
import LetLang.Proofs.Colours
