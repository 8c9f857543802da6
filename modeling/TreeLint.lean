import TreeLint.Binary64.Basic
import TreeLint.Binary64.Shortest
import TreeLint.Check.Basic
import TreeLint.Command.Arguments
import TreeLint.Command.Basic
import TreeLint.Command.Override
import TreeLint.Config.Basic
import TreeLint.Config.Error
import TreeLint.Config.Options
import TreeLint.Config.Table
import TreeLint.Count
import TreeLint.Fault
import TreeLint.Files.Basic
import TreeLint.Files.Error
import TreeLint.Files.Layout
import TreeLint.Files.Resolve
import TreeLint.Files.Search
import TreeLint.Fixing.Basic
import TreeLint.Json.Quoted
import TreeLint.Json.Reader
import TreeLint.Json.Writer
import TreeLint.Lint.Basic
import TreeLint.Lint.Result
import TreeLint.Load.Basic
import TreeLint.Load.Document
import TreeLint.Load.Error
import TreeLint.Main
import TreeLint.Path.Basic
import TreeLint.Path.Filter
import TreeLint.Path.Pattern
import TreeLint.Project.Basic
import TreeLint.Proofs.Address
import TreeLint.Proofs.AttributeText
import TreeLint.Proofs.CheckSteps
import TreeLint.Proofs.CollectedFiles
import TreeLint.Proofs.ColorSearch
import TreeLint.Proofs.CommentRuns
import TreeLint.Proofs.Emission
import TreeLint.Proofs.EntryCheck
import TreeLint.Proofs.Files
import TreeLint.Proofs.FixOrder
import TreeLint.Proofs.FixSelection
import TreeLint.Proofs.FixedSource
import TreeLint.Proofs.Fixing
import TreeLint.Proofs.FragmentForms
import TreeLint.Proofs.Interpolation
import TreeLint.Proofs.LateMembers
import TreeLint.Proofs.LayerLaws
import TreeLint.Proofs.Layering
import TreeLint.Proofs.LoadOutcome
import TreeLint.Proofs.LoadedTree
import TreeLint.Proofs.Locations
import TreeLint.Proofs.MendedResult
import TreeLint.Proofs.Messages
import TreeLint.Proofs.MissingDocs
import TreeLint.Proofs.NamedTargets
import TreeLint.Proofs.NestedComponents
import TreeLint.Proofs.NodeReports
import TreeLint.Proofs.Noninterference
import TreeLint.Proofs.Numerals
import TreeLint.Proofs.OpenNodes
import TreeLint.Proofs.OptionLayers
import TreeLint.Proofs.Placeholders
import TreeLint.Proofs.ProjectConfiguration
import TreeLint.Proofs.RedundantFragments
import TreeLint.Proofs.Regex
import TreeLint.Proofs.ReportAgreement
import TreeLint.Proofs.ReportedViolations
import TreeLint.Proofs.Resolution
import TreeLint.Proofs.RuleReports
import TreeLint.Proofs.RuleRuns
import TreeLint.Proofs.RunEffects
import TreeLint.Proofs.Serialization
import TreeLint.Proofs.ShapedRun
import TreeLint.Proofs.Spellings
import TreeLint.Proofs.StableSort
import TreeLint.Proofs.StaleChanges
import TreeLint.Proofs.Targets
import TreeLint.Proofs.Trimming
import TreeLint.Proofs.UnorderedMembers
import TreeLint.Proofs.Utf8
import TreeLint.Proofs.WellNested
import TreeLint.Proofs.WrappedNodes
import TreeLint.Proofs.WrappedTree
import TreeLint.Proofs.Wrapping
import TreeLint.Proofs.WrittenSettings
import TreeLint.Registry
import TreeLint.Report.Json
import TreeLint.Report.Markup
import TreeLint.Report.Terminal
import TreeLint.Rule.Basic
import TreeLint.Rule.Message
import TreeLint.Rule.Reporting
import TreeLint.Rule.Severity
import TreeLint.Rule.Violation
import TreeLint.Rules.ClassName
import TreeLint.Rules.ConstantName
import TreeLint.Rules.CurlyText
import TreeLint.Rules.DefaultExport
import TreeLint.Rules.DirectColor
import TreeLint.Rules.DocComment
import TreeLint.Rules.FileName
import TreeLint.Rules.Fragment
import TreeLint.Rules.ImportPath
import TreeLint.Rules.InlineArrow
import TreeLint.Rules.Interaction
import TreeLint.Rules.MemberOrder
import TreeLint.Rules.NestedComponent
import TreeLint.Rules.TypeName
import TreeLint.Rules.Typography
import TreeLint.Shape.Component
import TreeLint.Shape.Doc
import TreeLint.Shape.Jsx
import TreeLint.Shape.Name
import TreeLint.Shape.Spelling
import TreeLint.Source.Code
import TreeLint.Source.Comment
import TreeLint.Text.Basic
import TreeLint.Text.Blank
import TreeLint.Text.Case
import TreeLint.Text.Color
import TreeLint.Text.Digit
import TreeLint.Text.Integer
import TreeLint.Text.Lines
import TreeLint.Text.Printable
import TreeLint.Text.Quoted
import TreeLint.Text.Utf8
import TreeLint.Text.Word
import TreeLint.Toml.Number
import TreeLint.Toml.Reader
import TreeLint.Toml.Table
import TreeLint.Toml.Text
import TreeLint.Tree.Basic
import TreeLint.Tree.Children
import TreeLint.Tree.Cursor
import TreeLint.Tree.Position
import TreeLint.Tree.Route
import TreeLint.Tree.Walk
import TreeLint.Value.Basic
import TreeLint.Value.Key
import TreeLint.Value.Moment
import TreeLint.Value.Whole
import TreeLint.Value.Written
