import ApiBindings.Api
import ApiBindings.Artifact.Commands
import ApiBindings.Artifact.Comment
import ApiBindings.Artifact.Enums
import ApiBindings.Artifact.Extensions
import ApiBindings.Artifact.Generate
import ApiBindings.Artifact.Limits
import ApiBindings.Artifact.LogMap
import ApiBindings.Artifact.Versions
import ApiBindings.CType
import ApiBindings.Code.DocComment
import ApiBindings.Code.Spelling
import ApiBindings.Code.Ident
import ApiBindings.Code.Literal
import ApiBindings.Code.TypeItem
import ApiBindings.CommandLine.Arguments
import ApiBindings.CommandLine.Run
import ApiBindings.CommandLine.Target
import ApiBindings.Constant.Expr
import ApiBindings.Constant.Reader
import ApiBindings.Constant.Scope
import ApiBindings.Constant.Token
import ApiBindings.Context
import ApiBindings.Declarator
import ApiBindings.Diagnostic
import ApiBindings.Document.Attribution
import ApiBindings.Document.Definition
import ApiBindings.Document.Interface
import ApiBindings.Document.Reader
import ApiBindings.Documentation
import ApiBindings.Files.Load
import ApiBindings.Files.System
import ApiBindings.Files.Tree
import ApiBindings.Header.Declaration
import ApiBindings.Header.Item
import ApiBindings.Header.Marker
import ApiBindings.Header.Reader
import ApiBindings.Header.Source
import ApiBindings.Interface
import ApiBindings.Main
import ApiBindings.Markup.Attribute
import ApiBindings.Markup.Char
import ApiBindings.Markup.DocumentType
import ApiBindings.Markup.Element
import ApiBindings.Markup.Encoding
import ApiBindings.Markup.Entity
import ApiBindings.Markup.Event
import ApiBindings.Markup.Name
import ApiBindings.Markup.Reader
import ApiBindings.Markup.Scanner
import ApiBindings.Markup.Token
import ApiBindings.Markup.Writer
import ApiBindings.Origin
import ApiBindings.Pass
import ApiBindings.Path
import ApiBindings.Profile
import ApiBindings.Records
import ApiBindings.Registry.Basic
import ApiBindings.Registry.Merge
import ApiBindings.Report
import ApiBindings.Resolution
import ApiBindings.Specification
import ApiBindings.Storage
import ApiBindings.Symbol
import ApiBindings.Table
import ApiBindings.Text.Blank
import ApiBindings.Text.Number
import ApiBindings.Text.Word
import ApiBindings.Text.WordTable
import ApiBindings.Value
import ApiBindings.Vendor
import ApiBindings.Version
import ApiBindings.Proofs.Merging.Accounts
import ApiBindings.Proofs.Merging.Precedence
import ApiBindings.Proofs.Merging.Conflicts
import ApiBindings.Proofs.Selection.Events
import ApiBindings.Proofs.Merging.Groups
import ApiBindings.Proofs.Selection.Groups
import ApiBindings.Proofs.Reading.Enumerants
import ApiBindings.Proofs.Reading.Shares
import ApiBindings.Proofs.Reading.Headers
import ApiBindings.Proofs.Merging.Extensions
import ApiBindings.Proofs.Merging.Reordering
import ApiBindings.Proofs.Merging.Ties
import ApiBindings.Proofs.Merging.Features
import ApiBindings.Proofs.Reading.Features
import ApiBindings.Proofs.Selection.Interfaces
import ApiBindings.Proofs.Selection.Headers
import ApiBindings.Proofs.Selection.Monotonicity
import ApiBindings.Proofs.Selection.References
import ApiBindings.Proofs.Merging.Repetition
import ApiBindings.Proofs.Selection.Repetition
import ApiBindings.Proofs.Merging.Provenance
import ApiBindings.Proofs.Code.Constants
import ApiBindings.Proofs.Artifacts.Constants
import ApiBindings.Proofs.Reading.Accounting
import ApiBindings.Proofs.Reading.Filtering
import ApiBindings.Proofs.Merging.Arrangement
import ApiBindings.Proofs.Reading.Statements
import ApiBindings.Proofs.Text.Search
import ApiBindings.Proofs.Reading.Typedefs
import ApiBindings.Proofs.Reading.Sections
import ApiBindings.Proofs.Reading.Declarators
import ApiBindings.Proofs.Code.Typedefs
import ApiBindings.Proofs.Reading.Markers
import ApiBindings.Proofs.Text.Pieces
import ApiBindings.Proofs.Reading.Prototypes
import ApiBindings.Proofs.Reading.Commands
import ApiBindings.Proofs.Reading.CommandElements
import ApiBindings.Proofs.Merging.Readings
import ApiBindings.Proofs.Markup.Events
import ApiBindings.Proofs.Markup.Runs
import ApiBindings.Proofs.Markup.Truncation
import ApiBindings.Proofs.Reading.Truncation
import ApiBindings.Proofs.Reading.Cuts
import ApiBindings.Proofs.Reading.Attribution
import ApiBindings.Proofs.Storing.Passes
import ApiBindings.Proofs.Storing.Agreement
import ApiBindings.Proofs.CommandLine.Isolation
import ApiBindings.Proofs.Constant.Reading
import ApiBindings.Proofs.Constant.Tokens
import ApiBindings.Proofs.Constant.Notation
import ApiBindings.Proofs.Constant.Arithmetic
import ApiBindings.Proofs.Constant.Lexemes
import ApiBindings.Proofs.Constant.Arguments
import ApiBindings.Proofs.Constant.Calls
import ApiBindings.Proofs.Constant.Evaluation
import ApiBindings.Proofs.Artifacts.Collisions
import ApiBindings.Proofs.Artifacts.LogMap
import ApiBindings.Proofs.Constant.Casts
import ApiBindings.Proofs.Constant.Unsigned
import ApiBindings.Proofs.Reading.Comments
import ApiBindings.Proofs.Reading.Functions
import ApiBindings.Proofs.Reading.Parameters
import ApiBindings.Proofs.Reading.Enumerations
import ApiBindings.Proofs.Reading.Continuations
import ApiBindings.Proofs.Reading.Lines
import ApiBindings.Proofs.Code.Spelling
import ApiBindings.Proofs.Code.Aggregates
import ApiBindings.Proofs.Reading.Pointers
import ApiBindings.Proofs.Reading.FunctionPointers
import ApiBindings.Proofs.Reading.Linkages
import ApiBindings.Proofs.Merging.Pooling
import ApiBindings.Proofs.Reading.DocumentOrder
import ApiBindings.Proofs.Constant.Printing
import ApiBindings.Proofs.Code.SingleLines
import ApiBindings.Proofs.Artifacts.Roles
import ApiBindings.Proofs.Artifacts.Sections
import ApiBindings.Proofs.Artifacts.Commands
import ApiBindings.Proofs.Code.ReservedWords
import ApiBindings.Proofs.Text.Nesting
import ApiBindings.Proofs.Reading.ParameterTypes
import ApiBindings.Proofs.Merging.Signatures
import ApiBindings.Proofs.Constant.Bodies
import ApiBindings.Proofs.Constant.Termination
import ApiBindings.Proofs.Constant.Recursion
