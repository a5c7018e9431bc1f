import AnnotatedApi.Annotation.Basic
import AnnotatedApi.Annotation.Comment
import AnnotatedApi.Annotation.Role
import AnnotatedApi.Annotation.TagParser
import AnnotatedApi.Build
import AnnotatedApi.Catalogue
import AnnotatedApi.Command.Arguments
import AnnotatedApi.Command.Run
import AnnotatedApi.Disk.Basic
import AnnotatedApi.Disk.Files
import AnnotatedApi.Disk.Path
import AnnotatedApi.Disk.Scan
import AnnotatedApi.Document.Basic
import AnnotatedApi.Document.Codec
import AnnotatedApi.Document.Method
import AnnotatedApi.Document.Schema
import AnnotatedApi.Document.Violation
import AnnotatedApi.Error
import AnnotatedApi.Json.Basic
import AnnotatedApi.Json.Node
import AnnotatedApi.Json.Numeral
import AnnotatedApi.Json.Reader
import AnnotatedApi.Json.Sorted
import AnnotatedApi.Main
import AnnotatedApi.Model
import AnnotatedApi.Number.Basic
import AnnotatedApi.Number.Shortest
import AnnotatedApi.OrderedMap
import AnnotatedApi.Proofs.Annotation.BlockText
import AnnotatedApi.Proofs.Annotation.Braces
import AnnotatedApi.Proofs.Annotation.Codec
import AnnotatedApi.Proofs.Annotation.Defaults
import AnnotatedApi.Proofs.Annotation.Extraction
import AnnotatedApi.Proofs.Annotation.Headings
import AnnotatedApi.Proofs.Annotation.Joining
import AnnotatedApi.Proofs.Annotation.Layout
import AnnotatedApi.Proofs.Annotation.Naming
import AnnotatedApi.Proofs.Annotation.Placement
import AnnotatedApi.Proofs.Annotation.Sorting
import AnnotatedApi.Proofs.Annotation.TagText
import AnnotatedApi.Proofs.Annotation.Tokens
import AnnotatedApi.Proofs.Catalogue.Grouping
import AnnotatedApi.Proofs.Catalogue.History
import AnnotatedApi.Proofs.Catalogue.Overrides
import AnnotatedApi.Proofs.Catalogue.Typedefs
import AnnotatedApi.Proofs.Disk.Listing
import AnnotatedApi.Proofs.Disk.Paths
import AnnotatedApi.Proofs.Disk.Scan
import AnnotatedApi.Proofs.Document.Codec
import AnnotatedApi.Proofs.Document.Formats
import AnnotatedApi.Proofs.Document.Reference
import AnnotatedApi.Proofs.Document.Reordering
import AnnotatedApi.Proofs.Document.Shape
import AnnotatedApi.Proofs.Document.Validity
import AnnotatedApi.Proofs.Document.Violation
import AnnotatedApi.Proofs.Json.Fields
import AnnotatedApi.Proofs.Json.Nesting
import AnnotatedApi.Proofs.Json.Reading
import AnnotatedApi.Proofs.Model.Compilation
import AnnotatedApi.Proofs.Model.Required
import AnnotatedApi.Proofs.OrderedMap
import AnnotatedApi.Proofs.Outcome
import AnnotatedApi.Proofs.Route.Compilation
import AnnotatedApi.Proofs.Route.Event
import AnnotatedApi.Proofs.Route.Parameters
import AnnotatedApi.Proofs.Text.Blank
import AnnotatedApi.Proofs.Text.Bytes
import AnnotatedApi.Proofs.Text.Lines
import AnnotatedApi.Proofs.Text.Parts
import AnnotatedApi.Proofs.TypeExpr.Acceptance
import AnnotatedApi.Proofs.TypeExpr.Descent
import AnnotatedApi.Proofs.TypeExpr.ErrorPlace
import AnnotatedApi.Proofs.TypeExpr.Grammar
import AnnotatedApi.Proofs.TypeExpr.Locality
import AnnotatedApi.Proofs.TypeExpr.Plans
import AnnotatedApi.Proofs.TypeExpr.Printing
import AnnotatedApi.Proofs.TypeExpr.Reading
import AnnotatedApi.Proofs.TypeExpr.References
import AnnotatedApi.Proofs.TypeExpr.Resolution
import AnnotatedApi.Proofs.TypeExpr.Spelling
import AnnotatedApi.Proofs.TypeExpr.Stopping
import AnnotatedApi.Proofs.Yaml.Layout
import AnnotatedApi.Proofs.Yaml.Lexing
import AnnotatedApi.Proofs.Yaml.Literal
import AnnotatedApi.Proofs.Yaml.Nodes
import AnnotatedApi.Proofs.Yaml.Quoting
import AnnotatedApi.Proofs.Yaml.RoundTrip
import AnnotatedApi.Proofs.Yaml.Scalar
import AnnotatedApi.Proofs.Yaml.ScalarTokens
import AnnotatedApi.Proofs.Yaml.Unquoted
import AnnotatedApi.Proofs.Yaml.ValueTokens
import AnnotatedApi.Route
import AnnotatedApi.Settings
import AnnotatedApi.Source
import AnnotatedApi.Text.Basic
import AnnotatedApi.Text.Case
import AnnotatedApi.Text.Letter
import AnnotatedApi.TypeExpr.Basic
import AnnotatedApi.TypeExpr.Codec
import AnnotatedApi.TypeExpr.Parser
import AnnotatedApi.Yaml.Block
import AnnotatedApi.Yaml.Fold
import AnnotatedApi.Yaml.Lexer
import AnnotatedApi.Yaml.Node
import AnnotatedApi.Yaml.Quoted
import AnnotatedApi.Yaml.Reader
import AnnotatedApi.Yaml.Scalar
import AnnotatedApi.Yaml.Style
import AnnotatedApi.Yaml.Unquoted
import AnnotatedApi.Yaml.Writer
