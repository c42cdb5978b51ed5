import TextParsing.Brackets
import TextParsing.CharSet
import TextParsing.Engine
import TextParsing.Grammar
import TextParsing.Input
import TextParsing.ParseError
import TextParsing.Parser
import TextParsing.Parser.Choice
import TextParsing.Parser.Literal
import TextParsing.Parser.Matching
import TextParsing.Parser.Number
import TextParsing.Parser.Repetition
import TextParsing.Parser.Run
import TextParsing.Parser.Sequence
import TextParsing.Pattern
import TextParsing.Perft
import TextParsing.Proofs.Engine
import TextParsing.Proofs.Grammar.Accounting
import TextParsing.Proofs.Grammar.Brackets
import TextParsing.Proofs.Grammar.Context
import TextParsing.Proofs.Grammar.Evaluation
import TextParsing.Proofs.Grammar.Nullable
import TextParsing.Proofs.Grammar.Remainder
import TextParsing.Proofs.Grammar.Skeleton
import TextParsing.Proofs.Grammar.Termination
import TextParsing.Proofs.Parser.Accounting
import TextParsing.Proofs.Parser.Alternation
import TextParsing.Proofs.Parser.Anchoring
import TextParsing.Proofs.Parser.Answering
import TextParsing.Proofs.Parser.Combinators
import TextParsing.Proofs.Parser.Conversion
import TextParsing.Proofs.Parser.Cutting
import TextParsing.Proofs.Parser.Greedy
import TextParsing.Proofs.Parser.Grouping
import TextParsing.Proofs.Parser.Literals
import TextParsing.Proofs.Parser.Lockstep
import TextParsing.Proofs.Parser.Numeral
import TextParsing.Proofs.Parser.OneByOne
import TextParsing.Proofs.Parser.OrderedChoice
import TextParsing.Proofs.Parser.PlainSearch
import TextParsing.Proofs.Parser.Remainder
import TextParsing.Proofs.Parser.Saturation
import TextParsing.Proofs.Parser.Session
import TextParsing.Proofs.Parser.Splitting
import TextParsing.Proofs.Parser.Taking
import TextParsing.Proofs.Parser.Unrolling
import TextParsing.Proofs.Parser.UpTo
import TextParsing.Proofs.Perft.RoundTrip
import TextParsing.Proofs.Regex.Beside
import TextParsing.Proofs.Regex.Choice
import TextParsing.Proofs.Regex.Ending
import TextParsing.Proofs.Regex.Engine
import TextParsing.Proofs.Regex.FromStart
import TextParsing.Proofs.Regex.Labels
import TextParsing.Proofs.Regex.Leftmost
import TextParsing.Proofs.Regex.Local
import TextParsing.Proofs.Regex.Local.Escape
import TextParsing.Proofs.Regex.Matches
import TextParsing.Proofs.Regex.Preferred
import TextParsing.Proofs.Regex.Settling
import TextParsing.Proofs.Regex.Trailing
import TextParsing.Proofs.Regex.Trailing.Bracket
import TextParsing.Proofs.Regex.Trailing.Escape
import TextParsing.Proofs.Regex.Trailing.Token
import TextParsing.Proofs.Report.Pointer
import TextParsing.Proofs.Report.Position
import TextParsing.Proofs.Report.Window
import TextParsing.Proofs.Text.Boundary
import TextParsing.Proofs.Text.Encoding
import TextParsing.Proofs.Text.Lines
import TextParsing.Proofs.Text.Occurrences
import TextParsing.Proofs.Text.Run
import TextParsing.Regex
import TextParsing.Regex.Bracket
import TextParsing.Regex.CharClass
import TextParsing.Regex.Compose
import TextParsing.Regex.Escape
import TextParsing.Regex.Flags
import TextParsing.Regex.Layout
import TextParsing.Regex.Nesting
import TextParsing.Regex.Pattern
import TextParsing.Regex.Plan
import TextParsing.Regex.Search
import TextParsing.Regex.Syntax
import TextParsing.Regex.Token
import TextParsing.Report
import TextParsing.Session
import TextParsing.Text
import TextParsing.Unicode.Alphabetic
import TextParsing.Unicode.CaseFold
import TextParsing.Unicode.Number
import TextParsing.Unicode.WhiteSpace
import TextParsing.Unicode.Word
import TextParsing.Value
import TextParsing.Value.Mapping
