import GrammarFormat.Command.Arguments
import GrammarFormat.Command.Lines
import GrammarFormat.Command.Run
import GrammarFormat.Decimal.Shortest
import GrammarFormat.Event
import GrammarFormat.Files
import GrammarFormat.Format
import GrammarFormat.Layout.Gap
import GrammarFormat.Layout.Joining
import GrammarFormat.Layout.Piece
import GrammarFormat.Layout.Render
import GrammarFormat.Layout.Scope
import GrammarFormat.Lexeme.Basic
import GrammarFormat.Lexeme.Rules
import GrammarFormat.Lexeme.Span
import GrammarFormat.LineEnding
import GrammarFormat.LineRange
import GrammarFormat.Main
import GrammarFormat.Proofs.AngleGroups
import GrammarFormat.Proofs.AtRest
import GrammarFormat.Proofs.BodyBlocks
import GrammarFormat.Proofs.BracketScans
import GrammarFormat.Proofs.Concatenation
import GrammarFormat.Proofs.Cut
import GrammarFormat.Proofs.Entries
import GrammarFormat.Proofs.FirstEnd
import GrammarFormat.Proofs.Formatting
import GrammarFormat.Proofs.Gaps
import GrammarFormat.Proofs.GroupEnds
import GrammarFormat.Proofs.HeaderIndent
import GrammarFormat.Proofs.Idempotence
import GrammarFormat.Proofs.InPlace
import GrammarFormat.Proofs.IndentChanges
import GrammarFormat.Proofs.Items
import GrammarFormat.Proofs.JoinedRuns
import GrammarFormat.Proofs.Joins
import GrammarFormat.Proofs.KeptBreaks
import GrammarFormat.Proofs.LexErrors
import GrammarFormat.Proofs.LexedTokens
import GrammarFormat.Proofs.LexemeTexts
import GrammarFormat.Proofs.LineSpans
import GrammarFormat.Proofs.LineTables
import GrammarFormat.Proofs.LongestMatch
import GrammarFormat.Proofs.Margins
import GrammarFormat.Proofs.Marks
import GrammarFormat.Proofs.MaximalMunch
import GrammarFormat.Proofs.Nesting
import GrammarFormat.Proofs.OnePass
import GrammarFormat.Proofs.ParenEnds
import GrammarFormat.Proofs.Partners
import GrammarFormat.Proofs.Parts
import GrammarFormat.Proofs.Passes
import GrammarFormat.Proofs.PatternChars
import GrammarFormat.Proofs.Positions
import GrammarFormat.Proofs.RangeGating
import GrammarFormat.Proofs.Reading
import GrammarFormat.Proofs.Relexing
import GrammarFormat.Proofs.Requests
import GrammarFormat.Proofs.SameTokens
import GrammarFormat.Proofs.Scopes
import GrammarFormat.Proofs.Slices
import GrammarFormat.Proofs.Splicing
import GrammarFormat.Proofs.TextLines
import GrammarFormat.Proofs.UnitLines
import GrammarFormat.Proofs.WholeFiles
import GrammarFormat.Proofs.Writing
import GrammarFormat.Sample
import GrammarFormat.Settings.Layer
import GrammarFormat.Settings.Load
import GrammarFormat.Text.Category
import GrammarFormat.Text.LineTable
import GrammarFormat.Text.Pattern
import GrammarFormat.Text.Quoted
import GrammarFormat.Token.Basic
import GrammarFormat.Token.Bracket
import GrammarFormat.Token.Json
import GrammarFormat.Token.Keyword
import GrammarFormat.Token.Kind
import GrammarFormat.Token.Lexer
import GrammarFormat.Token.Stream
import GrammarFormat.Toml.Blanks
import GrammarFormat.Toml.Date
import GrammarFormat.Toml.Reader
import GrammarFormat.Toml.Strings
import GrammarFormat.Toml.Table
import GrammarFormat.Toml.Value
