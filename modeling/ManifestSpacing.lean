import ManifestSpacing.Check.Basic
import ManifestSpacing.Check.ClosingBrace
import ManifestSpacing.Check.InheritedName
import ManifestSpacing.Check.Outline
import ManifestSpacing.Check.Problem
import ManifestSpacing.Check.Settings
import ManifestSpacing.Check.Suggestion
import ManifestSpacing.Command.Arguments
import ManifestSpacing.Command.Checking
import ManifestSpacing.Command.Libraries
import ManifestSpacing.Command.Rendering
import ManifestSpacing.Command.Run
import ManifestSpacing.Config.Basic
import ManifestSpacing.Config.Decode
import ManifestSpacing.Config.Discovery
import ManifestSpacing.Config.Issue
import ManifestSpacing.Config.Toml.Document
import ManifestSpacing.Config.Toml.Range
import ManifestSpacing.Config.Toml.Scalar
import ManifestSpacing.Config.Toml.Strings
import ManifestSpacing.Config.Toml.Value
import ManifestSpacing.Files.Path
import ManifestSpacing.Files.Replacement
import ManifestSpacing.Files.Snapshot
import ManifestSpacing.Files.Tree
import ManifestSpacing.Gap.Piece
import ManifestSpacing.Gap.Rule
import ManifestSpacing.Gap.TightSet
import ManifestSpacing.Lexical.CharSet
import ManifestSpacing.Lexical.Grammar
import ManifestSpacing.Lexical.Lexer
import ManifestSpacing.Lexical.Regex
import ManifestSpacing.Lexical.Segment
import ManifestSpacing.Lint.Linter
import ManifestSpacing.Lint.Repair
import ManifestSpacing.Main
import ManifestSpacing.Order.StableSort
import ManifestSpacing.Proofs.Check.Demands
import ManifestSpacing.Proofs.Check.Distinct
import ManifestSpacing.Proofs.Check.Outlines
import ManifestSpacing.Proofs.Check.Sites
import ManifestSpacing.Proofs.Command.CheckRuns
import ManifestSpacing.Proofs.Command.Collecting
import ManifestSpacing.Proofs.Command.Preparation
import ManifestSpacing.Proofs.Config.Loading
import ManifestSpacing.Proofs.Files.CompareAndSwap
import ManifestSpacing.Proofs.Files.Lookup
import ManifestSpacing.Proofs.Files.Replacing
import ManifestSpacing.Proofs.Gap.Layout
import ManifestSpacing.Proofs.Gap.Repairs
import ManifestSpacing.Proofs.Lexical.Blanks
import ManifestSpacing.Proofs.Lexical.Boundaries
import ManifestSpacing.Proofs.Lexical.Cutting
import ManifestSpacing.Proofs.Lexical.FirstLexeme
import ManifestSpacing.Proofs.Lexical.Interpolation
import ManifestSpacing.Proofs.Lexical.LineComments
import ManifestSpacing.Proofs.Lexical.LongestMatch
import ManifestSpacing.Proofs.Lexical.OpenStrings
import ManifestSpacing.Proofs.Lexical.PartialRuns
import ManifestSpacing.Proofs.Lexical.Places
import ManifestSpacing.Proofs.Lexical.Positions
import ManifestSpacing.Proofs.Lexical.Respacing
import ManifestSpacing.Proofs.Lexical.Runs
import ManifestSpacing.Proofs.Lexical.Scanning
import ManifestSpacing.Proofs.Lexical.Spelling
import ManifestSpacing.Proofs.Lexical.Streams
import ManifestSpacing.Proofs.Lexical.StringText
import ManifestSpacing.Proofs.Lint.AnyOrder
import ManifestSpacing.Proofs.Lint.CommentSafety
import ManifestSpacing.Proofs.Lint.Edits
import ManifestSpacing.Proofs.Lint.Exemptions
import ManifestSpacing.Proofs.Lint.Fixing
import ManifestSpacing.Proofs.Lint.GapOrder
import ManifestSpacing.Proofs.Lint.Hints
import ManifestSpacing.Proofs.Lint.Indentation
import ManifestSpacing.Proofs.Lint.LiveRepairs
import ManifestSpacing.Proofs.Lint.Mending
import ManifestSpacing.Proofs.Lint.OneRepair
import ManifestSpacing.Proofs.Lint.Passing
import ManifestSpacing.Proofs.Lint.RepairOutcomes
import ManifestSpacing.Proofs.Lint.Rereading
import ManifestSpacing.Proofs.Lint.Runs
import ManifestSpacing.Proofs.Lint.Schedule
import ManifestSpacing.Proofs.Lint.Selection
import ManifestSpacing.Proofs.Lint.Stretches
import ManifestSpacing.Proofs.Lint.Substitution
import ManifestSpacing.Proofs.Lint.Turns
import ManifestSpacing.Proofs.Lint.Violations
import ManifestSpacing.Proofs.Structure.Branches
import ManifestSpacing.Proofs.Structure.Matching
import ManifestSpacing.Proofs.Structure.Nesting
import ManifestSpacing.Proofs.Structure.Partners
import ManifestSpacing.Proofs.Structure.Progress
import ManifestSpacing.Proofs.Structure.Skeleton
import ManifestSpacing.Proofs.Token.Finding
import ManifestSpacing.Proofs.Token.OutwardSearch
import ManifestSpacing.Structure.Pairing
import ManifestSpacing.Structure.ValueConditional
import ManifestSpacing.Text.Bytes
import ManifestSpacing.Text.JsonText
import ManifestSpacing.Text.LineDiff
import ManifestSpacing.Text.Style
import ManifestSpacing.Token.Basic
import ManifestSpacing.Token.Kind
import ManifestSpacing.Token.Neighbors
import ManifestSpacing.Token.Stream
