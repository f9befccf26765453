import CodeOutline.Arguments
import CodeOutline.CallSite
import CodeOutline.CommandLine.Basic
import CodeOutline.CommandLine.Invocation
import CodeOutline.Comments
import CodeOutline.Damage
import CodeOutline.Decimal.Double
import CodeOutline.Decimal.Power
import CodeOutline.Decimal.Reader
import CodeOutline.Decimal.Writer
import CodeOutline.Dialect.Basic
import CodeOutline.Dialect.CSharp
import CodeOutline.Dialect.Go
import CodeOutline.Dialect.Java
import CodeOutline.Dialect.Php
import CodeOutline.Dialect.Python
import CodeOutline.Dialect.Rust
import CodeOutline.Dialect.TypeScript
import CodeOutline.Dialects
import CodeOutline.Dictionary
import CodeOutline.Document.Reader
import CodeOutline.Document.Writer
import CodeOutline.Failure
import CodeOutline.FileTree
import CodeOutline.Json.Basic
import CodeOutline.Json.Lexer
import CodeOutline.Json.Reader
import CodeOutline.Json.Writer
import CodeOutline.Language
import CodeOutline.Main
import CodeOutline.Names.ImportTable
import CodeOutline.Names.Resolver
import CodeOutline.Names.Rules
import CodeOutline.Outline.Basic
import CodeOutline.Outline.Reference
import CodeOutline.Outline.Symbol
import CodeOutline.Outliner
import CodeOutline.Path
import CodeOutline.Proofs.Affixes
import CodeOutline.Proofs.ArgumentLists
import CodeOutline.Proofs.Arguments
import CodeOutline.Proofs.Attributes
import CodeOutline.Proofs.Batches
import CodeOutline.Proofs.Callees
import CodeOutline.Proofs.Callers
import CodeOutline.Proofs.Collapse
import CodeOutline.Proofs.CommentStyles
import CodeOutline.Proofs.Counts
import CodeOutline.Proofs.Damage
import CodeOutline.Proofs.Declarators
import CodeOutline.Proofs.Decorators
import CodeOutline.Proofs.Depth
import CodeOutline.Proofs.Detection
import CodeOutline.Proofs.Dialect.CSharp
import CodeOutline.Proofs.Dialect.Go
import CodeOutline.Proofs.Dialect.Java
import CodeOutline.Proofs.Dialect.Php
import CodeOutline.Proofs.Dialect.Python
import CodeOutline.Proofs.Dialect.Rust
import CodeOutline.Proofs.Dialect.TypeScript
import CodeOutline.Proofs.Dialects
import CodeOutline.Proofs.Documents
import CodeOutline.Proofs.Edges
import CodeOutline.Proofs.Enclosure
import CodeOutline.Proofs.ErrorNodes
import CodeOutline.Proofs.Exploration
import CodeOutline.Proofs.FileComments
import CodeOutline.Proofs.FileReading
import CodeOutline.Proofs.Implementations
import CodeOutline.Proofs.Inheritance
import CodeOutline.Proofs.Invocations
import CodeOutline.Proofs.Joining
import CodeOutline.Proofs.Json.Lexing
import CodeOutline.Proofs.Json.Reading
import CodeOutline.Proofs.Layout
import CodeOutline.Proofs.LineNumbers
import CodeOutline.Proofs.Lines
import CodeOutline.Proofs.Marks
import CodeOutline.Proofs.Names.Bindings
import CodeOutline.Proofs.Names.Heads
import CodeOutline.Proofs.Names.Idempotence
import CodeOutline.Proofs.Names.Resolution
import CodeOutline.Proofs.Names.Segments
import CodeOutline.Proofs.NestingLimit
import CodeOutline.Proofs.Nodes
import CodeOutline.Proofs.OneLine
import CodeOutline.Proofs.Ordering
import CodeOutline.Proofs.Outcomes
import CodeOutline.Proofs.PackageNames
import CodeOutline.Proofs.ParentLists
import CodeOutline.Proofs.ParentPaths
import CodeOutline.Proofs.Paths
import CodeOutline.Proofs.Pruning
import CodeOutline.Proofs.Reaching
import CodeOutline.Proofs.Signatures
import CodeOutline.Proofs.SourceOrder
import CodeOutline.Proofs.Splitting
import CodeOutline.Proofs.Summaries
import CodeOutline.Proofs.Targets
import CodeOutline.Proofs.TypeArguments
import CodeOutline.Proofs.UseClauses.Clauses
import CodeOutline.Proofs.UseClauses.Imports
import CodeOutline.Proofs.UseClauses.Reading
import CodeOutline.Proofs.UseClauses.Syntax
import CodeOutline.Proofs.UseTrees.Comments
import CodeOutline.Proofs.UseTrees.Expansion
import CodeOutline.Proofs.UseTrees.Imports
import CodeOutline.Proofs.UseTrees.Reading
import CodeOutline.Proofs.UseTrees.Slashes
import CodeOutline.Proofs.UseTrees.Syntax
import CodeOutline.Proofs.Utf8
import CodeOutline.Proofs.Visits
import CodeOutline.Proofs.Walk
import CodeOutline.Proofs.XmlComments
import CodeOutline.Rule
import CodeOutline.Settings.Basic
import CodeOutline.Settings.File
import CodeOutline.Source
import CodeOutline.Summary
import CodeOutline.Text.Alphanumeric
import CodeOutline.Text.Basic
import CodeOutline.Text.Blank
import CodeOutline.Text.Chars
import CodeOutline.Text.CodePoints
import CodeOutline.Text.Lowercase
import CodeOutline.Text.Nesting
import CodeOutline.Text.Uppercase
import CodeOutline.Text.Utf8
import CodeOutline.Toml.Basic
import CodeOutline.Toml.Lexer
import CodeOutline.Toml.Reader
import CodeOutline.Toml.Scalar
import CodeOutline.Tree.Basic
import CodeOutline.Tree.Cursor
import CodeOutline.Tree.Document
import CodeOutline.Tree.Preorder
import CodeOutline.Tree.Walk
