import Reckoner.Text.Blank
import Reckoner.Text.Digit
import Reckoner.Text.Literal
import Reckoner.Text.Quoted
import Reckoner.Number.Layout
import Reckoner.Number.Reading
import Reckoner.Token.Scan
import Reckoner.Expr.Printing
import Reckoner.Builtin.Standard
import Reckoner.Declarations
import Reckoner.Statement
import Reckoner.Evaluation
import Reckoner.Session
import Reckoner.CommandLine
import Reckoner.Main
import Reckoner.Proofs.Grammar.ParseTree
import Reckoner.Proofs.Grammar.Reading
import Reckoner.Proofs.Grammar.Soundness
import Reckoner.Proofs.Grammar.Completeness
import Reckoner.Proofs.Grammar.Limit
import Reckoner.Proofs.Grammar.StatementTree
import Reckoner.Proofs.Declarations
import Reckoner.Proofs.Session.Declaring
import Reckoner.Proofs.Expr.Nodes
import Reckoner.Proofs.Grammar.Readable
import Reckoner.Proofs.Token.Numeral
import Reckoner.Proofs.Token.WellWritten
import Reckoner.Proofs.Session.Registry
import Reckoner.Proofs.Evaluation.Safety
import Reckoner.Proofs.Grammar.Errors
import Reckoner.Proofs.Session.Failures
import Reckoner.Proofs.Declarations.Names
import Reckoner.Proofs.Grammar.Refusal
import Reckoner.Proofs.Grammar.Redeclaration
import Reckoner.Proofs.Token.Kinds
import Reckoner.Proofs.Token.Terminator
import Reckoner.Proofs.Session.Splitting
import Reckoner.Proofs.Token.Rewriting
import Reckoner.Proofs.Number.Bits
import Reckoner.Proofs.Number.Rounding
import Reckoner.Proofs.Number.Decimal
import Reckoner.Proofs.Number.Shortest
import Reckoner.Proofs.Number.Text
import Reckoner.Proofs.Token.Names
import Reckoner.Proofs.Token.Words
import Reckoner.Proofs.Grammar.Words
import Reckoner.Proofs.Expr.Printing
import Reckoner.Proofs.Grammar.Reprinting
import Reckoner.Proofs.Session.Reprinting
import Reckoner.Proofs.Session.Composition
import Reckoner.Proofs.Session.Omission
import Reckoner.Proofs.Evaluation.Course
import Reckoner.Proofs.Session.Values
import Reckoner.Proofs.Token.Layout
import Reckoner.Proofs.Token.Spans
import Reckoner.Proofs.Token.Tiling
import Reckoner.Proofs.Evaluation.Limit
import Reckoner.Proofs.Session.Limit
import Reckoner.Proofs.CommandLine
import Reckoner.Proofs.Evaluation.Frame
import Reckoner.Proofs.Token.Folding
import Reckoner.Proofs.Expr.Replacing
import Reckoner.Proofs.Grammar.Substitution
import Reckoner.Proofs.Grammar.Folding
import Reckoner.Proofs.Evaluation.Reach
import Reckoner.Proofs.Evaluation.Bindings
import Reckoner.Proofs.Token.Balance
import Reckoner.Proofs.Token.FlatScan
import Reckoner.Proofs.Grammar.Language
import Reckoner.Proofs.Grammar.Tracking
import Reckoner.Proofs.Grammar.CorrectPrefix
import Reckoner.Proofs.Evaluation.Faults
import Reckoner.Proofs.Evaluation.Acyclic
import Reckoner.Proofs.Declarations.Places
import Reckoner.Proofs.Grammar.Places
import Reckoner.Proofs.Evaluation.Places
import Reckoner.Proofs.Grammar.Positions
import Reckoner.Proofs.Session.History
import Reckoner.Proofs.Session.Positions
import Reckoner.Proofs.Grammar.Resolution
import Reckoner.Proofs.Session.Commutation
import Reckoner.Proofs.CommandLine.Conversation
import Reckoner.Proofs.Token.HeaderGrammar
import Reckoner.Proofs.Grammar.Openings
import Reckoner.Proofs.Session.Calling
import Reckoner.Proofs.Token.Exchange
import Reckoner.Proofs.Token.Commenting
import Reckoner.Proofs.CommandLine.LineEnds
import Reckoner.Proofs.Number.Nearest
import Reckoner.Proofs.Builtin.Factorial
import Reckoner.Proofs.Grammar.Congruence
import Reckoner.Proofs.Grammar.Backup
import Reckoner.Proofs.Grammar.Progress
import Reckoner.Proofs.Token.Characters
import Reckoner.Proofs.Token.Progress
