import DesignTokens.CommandLine.Arguments
import DesignTokens.CommandLine.Options
import DesignTokens.CommandLine.Request
import DesignTokens.Commands
import DesignTokens.Decimal.Basic
import DesignTokens.Decimal.Reader
import DesignTokens.Decimal.Rounding
import DesignTokens.Evaluation.Error
import DesignTokens.Evaluation.Evaluator
import DesignTokens.Evaluation.Part
import DesignTokens.Event
import DesignTokens.Expression.Atom
import DesignTokens.Expression.Basic
import DesignTokens.Expression.Operator
import DesignTokens.Expression.Scan
import DesignTokens.Formula
import DesignTokens.Host.Basic
import DesignTokens.Host.FileStore
import DesignTokens.Host.Memory
import DesignTokens.Json.Basic
import DesignTokens.Json.Number
import DesignTokens.Json.Parser
import DesignTokens.Json.Token
import DesignTokens.Lookup.Source
import DesignTokens.Lookup.Table
import DesignTokens.Main
import DesignTokens.Number.Binary64
import DesignTokens.Number.Rounding
import DesignTokens.Platform
import DesignTokens.Program
import DesignTokens.Proofs.Commands.Build
import DesignTokens.Proofs.Decimal.Normalize
import DesignTokens.Proofs.Decimal.Reader
import DesignTokens.Proofs.Decimal.Rounding
import DesignTokens.Proofs.Decimal.Written
import DesignTokens.Proofs.Evaluation.Afresh
import DesignTokens.Proofs.Evaluation.Agreement
import DesignTokens.Proofs.Evaluation.Alone
import DesignTokens.Proofs.Evaluation.CycleReport
import DesignTokens.Proofs.Evaluation.Cycles
import DesignTokens.Proofs.Evaluation.Display
import DesignTokens.Proofs.Evaluation.Expansion
import DesignTokens.Proofs.Evaluation.LookupErrors
import DesignTokens.Proofs.Evaluation.Malformed
import DesignTokens.Proofs.Evaluation.Memo
import DesignTokens.Proofs.Evaluation.Nested
import DesignTokens.Proofs.Evaluation.Numbers
import DesignTokens.Proofs.Evaluation.Order
import DesignTokens.Proofs.Evaluation.Reference
import DesignTokens.Proofs.Expression.Grammar
import DesignTokens.Proofs.Expression.KeptReferences
import DesignTokens.Proofs.Expression.Literals
import DesignTokens.Proofs.Expression.Pieces
import DesignTokens.Proofs.Expression.Places
import DesignTokens.Proofs.Expression.Reference
import DesignTokens.Proofs.Expression.Scanning
import DesignTokens.Proofs.FirstAppearances
import DesignTokens.Proofs.Formula.Arithmetic
import DesignTokens.Proofs.Formula.Defects
import DesignTokens.Proofs.Formula.Folding
import DesignTokens.Proofs.Host.FileStore
import DesignTokens.Proofs.Json.Number
import DesignTokens.Proofs.Json.Reading
import DesignTokens.Proofs.Json.Written
import DesignTokens.Proofs.Lookup.Chains
import DesignTokens.Proofs.Lookup.Entries
import DesignTokens.Proofs.Lookup.Filling
import DesignTokens.Proofs.Lookup.Graph
import DesignTokens.Proofs.Lookup.Least
import DesignTokens.Proofs.Lookup.Questions
import DesignTokens.Proofs.Lookup.Termination
import DesignTokens.Proofs.Number.Binary64
import DesignTokens.Proofs.Number.Logarithm
import DesignTokens.Proofs.Stylesheet.Grouping
import DesignTokens.Proofs.Stylesheet.Names
import DesignTokens.Proofs.Text.Kebab
import DesignTokens.Proofs.Text.KebabLoop
import DesignTokens.Proofs.Tokens.Dispatch
import DesignTokens.Proofs.Tokens.Faults
import DesignTokens.Proofs.Tokens.FullPaths
import DesignTokens.Proofs.Tokens.Growth
import DesignTokens.Proofs.Tokens.Loading
import DesignTokens.Proofs.Tokens.Reference
import DesignTokens.Proofs.Tokens.Reordering
import DesignTokens.Proofs.Traversal
import DesignTokens.Proofs.Tree.Conversion
import DesignTokens.Proofs.Tree.Growth
import DesignTokens.Proofs.Tree.Leaves
import DesignTokens.Proofs.Tree.Locations
import DesignTokens.Proofs.Tree.Paths
import DesignTokens.Proofs.Tree.Places
import DesignTokens.Proofs.Tree.Proper
import DesignTokens.Proofs.Tree.Readings
import DesignTokens.Proofs.Tree.References
import DesignTokens.Proofs.Tree.Reordering
import DesignTokens.Proofs.Tree.Values
import DesignTokens.Stylesheet.Basic
import DesignTokens.Stylesheet.Names
import DesignTokens.Stylesheet.OfTokens
import DesignTokens.Text.DigitRanges
import DesignTokens.Text.Kebab
import DesignTokens.Text.Quoted
import DesignTokens.Text.VisibleRanges
import DesignTokens.Text.Word
import DesignTokens.Text.WordRanges
import DesignTokens.Tokens.Basic
import DesignTokens.Tokens.Error
import DesignTokens.Tokens.Formatter
import DesignTokens.Tokens.Registry
import DesignTokens.Traced
import DesignTokens.Tree.Basic
import DesignTokens.Tree.OfJson
import DesignTokens.Tree.Path
import DesignTokens.Tree.Values
import DesignTokens.Value
