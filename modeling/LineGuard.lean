import LineGuard.Analysis
import LineGuard.CommandLine.Arguments
import LineGuard.CommandLine.Help
import LineGuard.CommandLine.Parameter
import LineGuard.CommandLine.Run
import LineGuard.CommandLine.Verb
import LineGuard.Comparison.Discrepancy
import LineGuard.Comparison.Pairing
import LineGuard.Comparison.Report
import LineGuard.Construct.Bare
import LineGuard.Construct.Basic
import LineGuard.Construct.Header
import LineGuard.Construct.Listing
import LineGuard.Construct.Locate
import LineGuard.Construct.Measure
import LineGuard.Document
import LineGuard.Exchange.Request
import LineGuard.Exchange.Response
import LineGuard.Json.Basic
import LineGuard.Json.Reader
import LineGuard.Json.Token
import LineGuard.Language.Builtin
import LineGuard.Language.KindSet
import LineGuard.Language.Reader
import LineGuard.Language.Table
import LineGuard.Line.Classifier
import LineGuard.Line.CommentSyntax
import LineGuard.Main
import LineGuard.Number.Decimal
import LineGuard.Number.Double
import LineGuard.Number.Shortest
import LineGuard.Permission
import LineGuard.PermissionMap
import LineGuard.Problem
import LineGuard.Region.Activation
import LineGuard.Region.Basic
import LineGuard.Region.Build
import LineGuard.Region.Stack
import LineGuard.Rendering.Data
import LineGuard.Rendering.Format
import LineGuard.Rendering.Table
import LineGuard.Rendering.Yaml
import LineGuard.Rendering.YamlText
import LineGuard.Scope.Basic
import LineGuard.Scope.Resolver
import LineGuard.Scope.TreeSearch
import LineGuard.Settings.Basic
import LineGuard.Settings.Environment
import LineGuard.Settings.Load
import LineGuard.Settings.Merge
import LineGuard.Settings.Path
import LineGuard.Settings.Value
import LineGuard.Span
import LineGuard.Tag.Basic
import LineGuard.Tag.Grammar
import LineGuard.Text.Basic
import LineGuard.Text.Columns
import LineGuard.Text.DecimalDigit
import LineGuard.Text.Dict
import LineGuard.Text.FileName
import LineGuard.Text.Lines
import LineGuard.Text.Pattern
import LineGuard.Text.Utf8
import LineGuard.Text.WordChar
import LineGuard.Toml.DateTime
import LineGuard.Toml.Document
import LineGuard.Toml.Number
import LineGuard.Toml.Quoted
import LineGuard.Toml.Statement
import LineGuard.Toml.Table
import LineGuard.Toml.Token
import LineGuard.Tree.Basic
import LineGuard.Tree.Memory
import LineGuard.Proofs.Region.Tiling
import LineGuard.Proofs.Region.Partition
import LineGuard.Proofs.Region.Activation
import LineGuard.Proofs.Region.Governing
import LineGuard.Proofs.Analysis.Agreement
import LineGuard.Proofs.PermissionMap.LatestDeclaration
import LineGuard.Proofs.Region.ContextRun
import LineGuard.Proofs.Scope.Placement
import LineGuard.Proofs.Tag.Reading
import LineGuard.Proofs.Tag.Scan
import LineGuard.Proofs.Tag.RoundTrip
import LineGuard.Proofs.Tag.Acceptance
import LineGuard.Proofs.Analysis.Background
import LineGuard.Proofs.Comparison.Pairing
import LineGuard.Proofs.Comparison.Verdict
import LineGuard.Proofs.Json.Scan
import LineGuard.Proofs.Json.RoundTrip
import LineGuard.Proofs.Json.Record
import LineGuard.Proofs.Exchange.RequestRoundTrip
import LineGuard.Proofs.Exchange.Export
import LineGuard.Proofs.Analysis.Locality
import LineGuard.Proofs.Region.StackRun
import LineGuard.Proofs.PermissionMap.Folding
import LineGuard.Proofs.Scope.Inquiry
import LineGuard.Proofs.Analysis.Faults
import LineGuard.Proofs.Scope.Shift
import LineGuard.Proofs.Analysis.Shift
import LineGuard.Proofs.Construct.Extent
import LineGuard.Proofs.Scope.Bounds
import LineGuard.Proofs.Line.Kind
import LineGuard.Proofs.Scope.Inline
import LineGuard.Proofs.Scope.SignatureAndBody
import LineGuard.Proofs.Scope.TreeConstruct
import LineGuard.Proofs.Scope.BareBlock
import LineGuard.Proofs.Comparison.Accounting
import LineGuard.Proofs.Comparison.Tolerance
import LineGuard.Proofs.Comparison.Preference
import LineGuard.Proofs.Text.Piece
import LineGuard.Proofs.Line.Block
import LineGuard.Proofs.Line.CodeBehindComment
import LineGuard.Proofs.Line.Literal
import LineGuard.Proofs.Comparison.Checked
import LineGuard.Proofs.MapM
import LineGuard.Proofs.Word
import LineGuard.Proofs.Region.Machine
import LineGuard.Proofs.Exchange.Checked
import LineGuard.Proofs.Text.Dict
import LineGuard.Proofs.Language.Inheritance
import LineGuard.Proofs.Construct.Depth
import LineGuard.Proofs.Construct.Measuring
import LineGuard.Proofs.Construct.BraceBody
import LineGuard.Proofs.Construct.LayoutBody
import LineGuard.Proofs.Construct.Shape
import LineGuard.Proofs.Construct.HeaderAndBody
import LineGuard.Proofs.Construct.FinishedStatement
import LineGuard.Proofs.Scope.Window
import LineGuard.Proofs.Text.LineEnding
import LineGuard.Proofs.Analysis.LineEnding
import LineGuard.Proofs.Text.Word
import LineGuard.Proofs.Rendering.Table
import LineGuard.Proofs.Construct.LeftOut
import LineGuard.Proofs.Construct.CharLiteral
import LineGuard.Proofs.Tree.SmallestNode
