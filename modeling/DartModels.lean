import DartModels.CommandLine.Arguments
import DartModels.CommandLine.Command
import DartModels.CommandLine.Failure
import DartModels.CommandLine.Plan
import DartModels.CommandLine.Run
import DartModels.CommandLine.Source
import DartModels.Conversion
import DartModels.Dart.Expr
import DartModels.Dart.Field
import DartModels.Dart.Literal
import DartModels.Dart.Source
import DartModels.Decimal.Layout
import DartModels.Decimal.Nearest
import DartModels.Decimal.Scale
import DartModels.Decimal.Shortest
import DartModels.Files.Access
import DartModels.Files.Path
import DartModels.Files.Tree
import DartModels.Glob.Expansion
import DartModels.Glob.Pattern
import DartModels.Identifier
import DartModels.Json.Pointer
import DartModels.Json.Printer
import DartModels.Json.Reader
import DartModels.Json.Value
import DartModels.Main
import DartModels.Options.Basic
import DartModels.Options.Decode
import DartModels.Proofs.BlankTexts
import DartModels.Proofs.Claiming
import DartModels.Proofs.Completion
import DartModels.Proofs.Conformance
import DartModels.Proofs.Congruence
import DartModels.Proofs.Depth
import DartModels.Proofs.Descent
import DartModels.Proofs.Digits
import DartModels.Proofs.Discards
import DartModels.Proofs.Distinct
import DartModels.Proofs.DoubleArithmetic
import DartModels.Proofs.DoubleTexts
import DartModels.Proofs.Doubles
import DartModels.Proofs.Entries
import DartModels.Proofs.Evaluation
import DartModels.Proofs.Failures
import DartModels.Proofs.FieldNames
import DartModels.Proofs.FileNames
import DartModels.Proofs.Fitting
import DartModels.Proofs.Folding
import DartModels.Proofs.Forwarding
import DartModels.Proofs.FreeNames
import DartModels.Proofs.Identity
import DartModels.Proofs.Index
import DartModels.Proofs.Join
import DartModels.Proofs.Letters
import DartModels.Proofs.Likeness
import DartModels.Proofs.Limits
import DartModels.Proofs.Literals
import DartModels.Proofs.Lowered
import DartModels.Proofs.Marks
import DartModels.Proofs.Matching
import DartModels.Proofs.Merging
import DartModels.Proofs.NameSupply
import DartModels.Proofs.Names
import DartModels.Proofs.NumberTexts
import DartModels.Proofs.Numbering
import DartModels.Proofs.Observation
import DartModels.Proofs.Operation
import DartModels.Proofs.Outline
import DartModels.Proofs.OwnFiles
import DartModels.Proofs.Packages
import DartModels.Proofs.Places
import DartModels.Proofs.Pruning
import DartModels.Proofs.QuotedTexts
import DartModels.Proofs.Reading
import DartModels.Proofs.Rearrangement
import DartModels.Proofs.Recall
import DartModels.Proofs.Reports
import DartModels.Proofs.Reprinting
import DartModels.Proofs.Retention
import DartModels.Proofs.RoundTrip
import DartModels.Proofs.Runs
import DartModels.Proofs.Scaling
import DartModels.Proofs.Sections
import DartModels.Proofs.Semilattice
import DartModels.Proofs.Sessions
import DartModels.Proofs.Sharing
import DartModels.Proofs.ShortestDecimals
import DartModels.Proofs.Signature
import DartModels.Proofs.Soundness
import DartModels.Proofs.Stack
import DartModels.Proofs.Steps
import DartModels.Proofs.Success
import DartModels.Proofs.Termination
import DartModels.Proofs.Tightness
import DartModels.Proofs.Twins
import DartModels.Proofs.TypeNames
import DartModels.Proofs.Typing
import DartModels.Proofs.Union
import DartModels.Proofs.Walk
import DartModels.Proofs.WellFormed
import DartModels.Proofs.Writing
import DartModels.Query.Access
import DartModels.Query.Eval
import DartModels.Query.Function
import DartModels.Query.Grammar
import DartModels.Query.Operator
import DartModels.Query.Order
import DartModels.Query.Run
import DartModels.Query.Scope
import DartModels.Query.Term
import DartModels.Query.Token
import DartModels.Query.Value
import DartModels.Shape.Basic
import DartModels.Shape.Catalog
import DartModels.Shape.Inference
import DartModels.Shape.Join
import DartModels.Shape.Path
import DartModels.Shape.Table
import DartModels.Text.Blank
import DartModels.Text.Debug
import DartModels.Text.Words
import DartModels.Yaml.Cursor
import DartModels.Yaml.Document
import DartModels.Yaml.Fault
import DartModels.Yaml.Scalar
import DartModels.Yaml.Token
import DartModels.Yaml.Value
