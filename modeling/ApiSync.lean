import ApiSync.Alias.Declaration
import ApiSync.Alias.Import
import ApiSync.Alias.Registry
import ApiSync.Alias.Table
import ApiSync.Ambient
import ApiSync.Annotation
import ApiSync.Block
import ApiSync.Command.Help
import ApiSync.Command.Line
import ApiSync.Command.Output
import ApiSync.Command.Run
import ApiSync.Config
import ApiSync.Config.Load
import ApiSync.Config.Schema
import ApiSync.Console
import ApiSync.Coverage
import ApiSync.Coverage.Report
import ApiSync.Diff.Script
import ApiSync.Diff.Unified
import ApiSync.Document.Components
import ApiSync.Document.Load
import ApiSync.Document.Lookup
import ApiSync.Document.Operations
import ApiSync.Document.Orphans
import ApiSync.Endpoint
import ApiSync.Event
import ApiSync.Failure
import ApiSync.Files
import ApiSync.Glob
import ApiSync.Glob.Expression
import ApiSync.Handler.Decorators
import ApiSync.Handler.Route
import ApiSync.Handler.Scan
import ApiSync.Json
import ApiSync.Main
import ApiSync.Markers
import ApiSync.Metadata.Example
import ApiSync.Metadata.Merge
import ApiSync.Metadata.Overlay
import ApiSync.Metadata.Rendered
import ApiSync.Model.Attribute
import ApiSync.Model.Bases
import ApiSync.Model.Blocks
import ApiSync.Model.Component
import ApiSync.Model.Decorators
import ApiSync.Model.InitAttributes
import ApiSync.Model.Scan
import ApiSync.Number
import ApiSync.Number.Decimal
import ApiSync.Path
import ApiSync.Python.Docstring
import ApiSync.Python.Expression
import ApiSync.Python.Literal
import ApiSync.Python.Module
import ApiSync.Python.Normal
import ApiSync.Python.Syntax
import ApiSync.Python.Token
import ApiSync.Schema
import ApiSync.Schema.Layers
import ApiSync.Sync.Report
import ApiSync.Sync.Run
import ApiSync.Text
import ApiSync.Text.Case
import ApiSync.Text.Escape
import ApiSync.Text.Identifier
import ApiSync.Text.Letter
import ApiSync.Validation
import ApiSync.Value
import ApiSync.Yaml.Dump
import ApiSync.Yaml.Folding
import ApiSync.Yaml.Load
import ApiSync.Yaml.Node
import ApiSync.Yaml.Quoting
import ApiSync.Yaml.Reader
import ApiSync.Yaml.Scalar
import ApiSync.Proofs.Equality
import ApiSync.Proofs.Document.Operations
import ApiSync.Proofs.Document.Components
import ApiSync.Proofs.Document.Settling
import ApiSync.Proofs.Metadata.WellFormed
import ApiSync.Proofs.Document.Inherited
import ApiSync.Proofs.Document.Effect
import ApiSync.Proofs.Annotation.Words
import ApiSync.Proofs.Annotation.Brackets
import ApiSync.Proofs.Annotation.Groups
import ApiSync.Proofs.Annotation.UnionMembers
import ApiSync.Proofs.Annotation.NullSpellings
import ApiSync.Proofs.Schema.ListItems
import ApiSync.Proofs.Schema.Nullable
import ApiSync.Proofs.Annotation.Pieces
import ApiSync.Proofs.Failing
import ApiSync.Proofs.Handler.Joined
import ApiSync.Proofs.Handler.Strictness
import ApiSync.Proofs.Handler.Accounting
import ApiSync.Proofs.Yaml.Reading
import ApiSync.Proofs.Yaml.WellFormed
import ApiSync.Proofs.Model.WellFormed
import ApiSync.Proofs.Model.Session
import ApiSync.Proofs.Model.Reading
import ApiSync.Proofs.Document.Resyncing
import ApiSync.Proofs.Model.Exclusion
import ApiSync.Proofs.Model.Components
import ApiSync.Proofs.Annotation.Tree
import ApiSync.Proofs.Annotation.TreeText
import ApiSync.Proofs.Annotation.TreeUnion
import ApiSync.Proofs.Schema.OfTree
import ApiSync.Proofs.Alias.Replacement
import ApiSync.Proofs.Annotation.MapWords
import ApiSync.Proofs.Alias.Substitution
import ApiSync.Proofs.Alias.Expansion
import ApiSync.Proofs.Alias.Transparency
import ApiSync.Proofs.Diff.Script
import ApiSync.Proofs.Diff.Hunks
import ApiSync.Proofs.Diff.Patch
import ApiSync.Proofs.Document.Silent
import ApiSync.Proofs.Coverage.Drift
import ApiSync.Proofs.Files
import ApiSync.Proofs.Path
import ApiSync.Proofs.Sync.FileEffects
import ApiSync.Proofs.Text.Order
import ApiSync.Proofs.Document.SyncEffect
import ApiSync.Proofs.Python.Escapes
import ApiSync.Proofs.Glob
import ApiSync.Proofs.Handler.Failures
import ApiSync.Proofs.Alias.Loading
import ApiSync.Proofs.Alias.Entering
import ApiSync.Proofs.Alias.Sessions
import ApiSync.Proofs.Alias.Definition
import ApiSync.Proofs.Alias.Order
import ApiSync.Proofs.Coverage.Gap
import ApiSync.Proofs.Handler.Repetition
import ApiSync.Proofs.Config.Precedence
import ApiSync.Proofs.Validation.References
import ApiSync.Proofs.Files.Walk
import ApiSync.Proofs.Handler.Independence
import ApiSync.Proofs.Annotation.Leaves
import ApiSync.Proofs.Annotation.PipeUnions
import ApiSync.Proofs.Annotation.SubscriptUnions
import ApiSync.Proofs.Annotation.UnionSpellings
import ApiSync.Proofs.Model.Attributes
import ApiSync.Proofs.Model.References
import ApiSync.Proofs.Annotation.Nesting
import ApiSync.Proofs.Annotation.FirstUnion
import ApiSync.Proofs.Annotation.MemberParts
import ApiSync.Proofs.Annotation.Flattening
import ApiSync.Proofs.Annotation.WellBracketed
import ApiSync.Proofs.Annotation.NullMembers
import ApiSync.Proofs.Annotation.RewrittenWords
import ApiSync.Proofs.Schema.Resolved
import ApiSync.Proofs.Metadata.Conflicts
import ApiSync.Proofs.Metadata.Remerging
import ApiSync.Proofs.Metadata.UniteByName
import ApiSync.Proofs.Metadata.Rendering
import ApiSync.Proofs.Python.Layout
import ApiSync.Proofs.Number.Exact
import ApiSync.Proofs.Number.Numeral
import ApiSync.Proofs.Python.Integer
import ApiSync.Proofs.Python.Spelling
import ApiSync.Proofs.Python.Template
import ApiSync.Proofs.Glob.Signs
import ApiSync.Proofs.Glob.Shell
import ApiSync.Proofs.Metadata.Writing
import ApiSync.Proofs.Metadata.Placement
import ApiSync.Proofs.Model.Contributions
import ApiSync.Proofs.Python.Indentation
import ApiSync.Proofs.Text.Ascii
import ApiSync.Proofs.Block.Marks
import ApiSync.Proofs.Block.Pattern
import ApiSync.Proofs.Block.Scanning
import ApiSync.Proofs.Python.Words
import ApiSync.Proofs.Python.Reading
import ApiSync.Proofs.Python.Names
import ApiSync.Proofs.Model.Assignments
import ApiSync.Proofs.Model.Inferred
import ApiSync.Proofs.Schema.Layers
import ApiSync.Proofs.Schema.Constructs
import ApiSync.Proofs.Number.Share
import ApiSync.Proofs.Coverage.Counts
import ApiSync.Proofs.Validation.Entries
import ApiSync.Proofs.Command.Requests
import ApiSync.Proofs.Command.Help
import ApiSync.Proofs.Schema.Enumeration
import ApiSync.Proofs.Lookups
import ApiSync.Proofs.Annotation.MemberLists
import ApiSync.Proofs.Python.Renormalizing
import ApiSync.Proofs.Model.FileOrder
