import FrontEnd.Cli.Duration
import FrontEnd.Cli.Files
import FrontEnd.Cli.Options
import FrontEnd.Cli.Report
import FrontEnd.Definition.Basic
import FrontEnd.Definition.Parser
import FrontEnd.Diagnostic.Basic
import FrontEnd.Diagnostic.Render
import FrontEnd.Expr.Basic
import FrontEnd.Expr.Parser
import FrontEnd.Literal.Escape
import FrontEnd.Literal.Scan
import FrontEnd.Main
import FrontEnd.ParsedFile
import FrontEnd.Parser.Basic
import FrontEnd.Parser.Grammar
import FrontEnd.Source.Bytes
import FrontEnd.Source.Cursor
import FrontEnd.Source.Line
import FrontEnd.Source.Position
import FrontEnd.Stmt.Basic
import FrontEnd.Stmt.Parser
import FrontEnd.Text.Digits
import FrontEnd.Text.Quoted
import FrontEnd.Token.Kind
import FrontEnd.Token.Lexeme
import FrontEnd.Token.Stream
import FrontEnd.Token.Tokenize
import FrontEnd.Tree.Node
import FrontEnd.TypeExpr.Basic
import FrontEnd.TypeExpr.Parser
import FrontEnd.Unicode.Identifier
import FrontEnd.Unicode.Printable
import FrontEnd.Unicode.Ranges
import FrontEnd.Unicode.WhiteSpace
import FrontEnd.Proofs.Literal.Scan
import FrontEnd.Proofs.Token.Lexeme
import FrontEnd.Proofs.Token.Tiling
import FrontEnd.Proofs.Parser.Nesting
import FrontEnd.Proofs.Parser.Reading
import FrontEnd.Proofs.Grammar.Spelling
import FrontEnd.Proofs.Grammar.Types
import FrontEnd.Proofs.Grammar.Expressions
import FrontEnd.Proofs.Grammar.Statements
import FrontEnd.Proofs.Parser.Crossing
import FrontEnd.Proofs.Grammar.Blocks
import FrontEnd.Proofs.Grammar.Definitions
import FrontEnd.Proofs.Token.Placing
import FrontEnd.Proofs.Grammar.Soundness
import FrontEnd.Proofs.Expr.Precedence
import FrontEnd.Proofs.Token.Lines
import FrontEnd.Proofs.Parser.Shifting
import FrontEnd.Proofs.Grammar.ShiftedFiles
import FrontEnd.Proofs.Diagnostic.Sorted
import FrontEnd.Proofs.Grammar.Joining
import FrontEnd.Proofs.Grammar.Containment
import FrontEnd.Proofs.Grammar.Stray
import FrontEnd.Proofs.Tree.Bare
import FrontEnd.Proofs.Parser.Comparing
import FrontEnd.Proofs.Parser.Mirroring
import FrontEnd.Proofs.Grammar.Mirroring
import FrontEnd.Proofs.Grammar.MirroredFiles
import FrontEnd.Proofs.Grammar.Spacing
import FrontEnd.Proofs.Token.Problems
import FrontEnd.Proofs.Parser.Closing
import FrontEnd.Proofs.Grammar.Tidiness
import FrontEnd.Proofs.Grammar.Closing
import FrontEnd.Proofs.Grammar.Composing
import FrontEnd.Proofs.Grammar.Sequence
import FrontEnd.Proofs.Tree.Relocate
import FrontEnd.Proofs.Grammar.Shifting
import FrontEnd.Proofs.Parser.Unrolling
import FrontEnd.Proofs.Grammar.Progress
import FrontEnd.Proofs.Grammar.Recursion
import FrontEnd.Proofs.Parser.Depth
import FrontEnd.Proofs.Grammar.Depth
import FrontEnd.Proofs.Tree.Placement
import FrontEnd.Proofs.Grammar.Layout
import FrontEnd.Proofs.Parser.InPlace
import FrontEnd.Proofs.Grammar.Spans
import FrontEnd.Proofs.Grammar.Halting
import FrontEnd.Proofs.Token.Locality
import FrontEnd.Proofs.Literal.Heads
import FrontEnd.Proofs.Literal.Agreement
import FrontEnd.Proofs.Grammar.Making
import FrontEnd.Proofs.Tree.Marks
import FrontEnd.Proofs.Source.Coherence
import FrontEnd.Proofs.Token.Bytewise
import FrontEnd.Proofs.Diagnostic.Rendering
import FrontEnd.Proofs.Source.Safety
import FrontEnd.Proofs.Token.Blanks
import FrontEnd.Proofs.Tree.Exchange
import FrontEnd.Proofs.Parser.Resuming
import FrontEnd.Proofs.Parser.Breaking
import FrontEnd.Proofs.Grammar.Recovering
import FrontEnd.Proofs.Grammar.Breaking
import FrontEnd.Proofs.Grammar.BrokenFiles
import FrontEnd.Proofs.Grammar.MissingSemicolon
import FrontEnd.Proofs.Grammar.Failing
import FrontEnd.Proofs.Literal.RoundTrip
import FrontEnd.Proofs.Token.Defects
import FrontEnd.Proofs.Tree.Remarks
import FrontEnd.Proofs.Parser.Trail
import FrontEnd.Proofs.Grammar.Accounting
import FrontEnd.Proofs.Expr.Lookahead
import FrontEnd.Proofs.Expr.Casting
import FrontEnd.Proofs.Parser.Gaps
import FrontEnd.Proofs.Grammar.Origins
import FrontEnd.Proofs.Grammar.Finishing
import FrontEnd.Proofs.Grammar.Housing
import FrontEnd.Proofs.Grammar.Gathering
import FrontEnd.Proofs.TypeExpr.Spelling
import FrontEnd.Proofs.TypeExpr.RoundTrip
import FrontEnd.Proofs.Tree.Shape
import FrontEnd.Proofs.Grammar.Shaping
import FrontEnd.Proofs.Tree.Slots
import FrontEnd.Proofs.Parser.Template
import FrontEnd.Proofs.TypeExpr.Rereading
import FrontEnd.Proofs.Parser.Echoing
import FrontEnd.Proofs.Grammar.Echoing
import FrontEnd.Proofs.Grammar.EchoedBlocks
import FrontEnd.Proofs.Grammar.EchoedFiles
import FrontEnd.Proofs.Token.Seams
import FrontEnd.Proofs.Source.Lookup
import FrontEnd.Proofs.Grammar.Framing
import FrontEnd.Proofs.Diagnostic.Caret
import FrontEnd.Proofs.Tree.Chars
import FrontEnd.Proofs.Literal.Malformed
import FrontEnd.Proofs.Token.Respelling
import FrontEnd.Proofs.Grammar.Respelling
import FrontEnd.Proofs.Literal.Partition
import FrontEnd.Proofs.Token.TriviaLookup
import FrontEnd.Proofs.Token.Relexing
import FrontEnd.Proofs.Token.Longest
import FrontEnd.Proofs.Literal.Decoding
import FrontEnd.Proofs.Parser.InRange
import FrontEnd.Proofs.Tree.Building
import FrontEnd.Proofs.Tree.Leaves
import FrontEnd.Proofs.Grammar.OutOfRange
import FrontEnd.Proofs.Text.Digits
import FrontEnd.Proofs.Text.Quoting
import FrontEnd.Proofs.Source.Fidelity
import FrontEnd.Proofs.Tree.Sexp
import FrontEnd.Proofs.Source.Unambiguous
import FrontEnd.Proofs.Grammar.Stopping
import FrontEnd.Proofs.Token.Cutting
