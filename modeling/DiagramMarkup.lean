import DiagramMarkup.Compile.Basic
import DiagramMarkup.Compile.Connector
import DiagramMarkup.Compile.Control
import DiagramMarkup.Compile.Draw
import DiagramMarkup.Compile.Figure
import DiagramMarkup.Compile.Gradient
import DiagramMarkup.Compile.Label
import DiagramMarkup.Compile.Reuse
import DiagramMarkup.Compile.Role
import DiagramMarkup.Compile.Root
import DiagramMarkup.Compile.Session
import DiagramMarkup.Compile.Siblings
import DiagramMarkup.Css.Grammar
import DiagramMarkup.Css.Parser
import DiagramMarkup.Css.Selector
import DiagramMarkup.Css.Sheet
import DiagramMarkup.Css.Token
import DiagramMarkup.Document.Context
import DiagramMarkup.Document.Error
import DiagramMarkup.Document.Options
import DiagramMarkup.Document.Scope
import DiagramMarkup.Element.Attrs
import DiagramMarkup.Element.Basic
import DiagramMarkup.Element.Event
import DiagramMarkup.Element.Node
import DiagramMarkup.Element.Order
import DiagramMarkup.Element.Outline
import DiagramMarkup.Element.Path
import DiagramMarkup.Element.Points
import DiagramMarkup.Element.Segment
import DiagramMarkup.Element.Shape
import DiagramMarkup.Expr.Builtin
import DiagramMarkup.Expr.Dice
import DiagramMarkup.Expr.Error
import DiagramMarkup.Expr.Eval
import DiagramMarkup.Expr.Template
import DiagramMarkup.Expr.Term
import DiagramMarkup.Expr.Token
import DiagramMarkup.Expr.Value
import DiagramMarkup.Fault
import DiagramMarkup.Files.Archive
import DiagramMarkup.Files.Disk
import DiagramMarkup.Files.Name
import DiagramMarkup.Files.NameTemplate
import DiagramMarkup.Files.NaturalOrder
import DiagramMarkup.Files.OutputPath
import DiagramMarkup.Files.Path
import DiagramMarkup.Files.Report
import DiagramMarkup.Files.Run
import DiagramMarkup.Files.Source
import DiagramMarkup.Geometry.Anchor
import DiagramMarkup.Geometry.Box
import DiagramMarkup.Geometry.Extent
import DiagramMarkup.Geometry.Numbers
import DiagramMarkup.Main
import DiagramMarkup.Number.Binary
import DiagramMarkup.Number.Decimal
import DiagramMarkup.Number.Reader
import DiagramMarkup.Number.Scalar
import DiagramMarkup.Position.Endpoint
import DiagramMarkup.Position.Ref
import DiagramMarkup.Position.Resolve
import DiagramMarkup.Proofs.Calls
import DiagramMarkup.Proofs.Drawings
import DiagramMarkup.Proofs.Elements
import DiagramMarkup.Proofs.Extents
import DiagramMarkup.Proofs.Literal
import DiagramMarkup.Proofs.Nesting
import DiagramMarkup.Proofs.OrderIndependence
import DiagramMarkup.Proofs.Passes
import DiagramMarkup.Proofs.Places
import DiagramMarkup.Proofs.References
import DiagramMarkup.Proofs.Roles
import DiagramMarkup.Proofs.Shapes
import DiagramMarkup.Proofs.Steps
import DiagramMarkup.Proofs.WellFormed
import DiagramMarkup.Raster.Size
import DiagramMarkup.Raster.Stroke
import DiagramMarkup.Route.Orthogonal
import DiagramMarkup.Route.Search
import DiagramMarkup.Settings.Basic
import DiagramMarkup.Settings.Load
import DiagramMarkup.Text.Blank
import DiagramMarkup.Text.Bytes
import DiagramMarkup.Text.Charset
import DiagramMarkup.Text.Chart
import DiagramMarkup.Text.Hyphens
import DiagramMarkup.Text.Lower
import DiagramMarkup.Text.Printable
import DiagramMarkup.Text.Quoted
import DiagramMarkup.Text.Registry
import DiagramMarkup.Text.RomanTable
import DiagramMarkup.Text.Romanize
import DiagramMarkup.Text.Split
import DiagramMarkup.Theme.Palette
import DiagramMarkup.Theme.Styles
import DiagramMarkup.Xml.Name
import DiagramMarkup.Xml.Reader
import DiagramMarkup.Xml.Writer
import DiagramMarkup.Yaml.Node
import DiagramMarkup.Yaml.Reader
import DiagramMarkup.Yaml.Writer
import DiagramMarkup.Proofs.Completeness
import DiagramMarkup.Proofs.Conduct
import DiagramMarkup.Proofs.Restoration
import DiagramMarkup.Proofs.Termination
import DiagramMarkup.Proofs.Agreement
import DiagramMarkup.Proofs.Configs
import DiagramMarkup.Proofs.Interruptions
import DiagramMarkup.Proofs.Grammar
import DiagramMarkup.Proofs.Regions
import DiagramMarkup.Proofs.Shorthands
import DiagramMarkup.Proofs.Skeletons
import DiagramMarkup.Proofs.Annotations
import DiagramMarkup.Proofs.Exact
import DiagramMarkup.Proofs.Grids
import DiagramMarkup.Proofs.Pieces
import DiagramMarkup.Proofs.Searches
import DiagramMarkup.Proofs.Routes
import DiagramMarkup.Proofs.Detours
import DiagramMarkup.Proofs.Frames
import DiagramMarkup.Proofs.Sessions
import DiagramMarkup.Proofs.Separation
import DiagramMarkup.Proofs.Streams
import DiagramMarkup.Proofs.Paths
import DiagramMarkup.Proofs.Destinations
import DiagramMarkup.Proofs.Evaluations
import DiagramMarkup.Proofs.Flatness
import DiagramMarkup.Proofs.Substitutions
import DiagramMarkup.Proofs.Tokens
import DiagramMarkup.Proofs.Bytewise
import DiagramMarkup.Proofs.Quotations
import DiagramMarkup.Proofs.Visibility
import DiagramMarkup.Proofs.Costs
import DiagramMarkup.Proofs.Prices
import DiagramMarkup.Proofs.Directions
import DiagramMarkup.Proofs.Repetitions
import DiagramMarkup.Proofs.Wholes
import DiagramMarkup.Proofs.Counts
import DiagramMarkup.Proofs.Groups
import DiagramMarkup.Proofs.Decimals
import DiagramMarkup.Proofs.Renderings
import DiagramMarkup.Proofs.Charges
import DiagramMarkup.Proofs.Strokes
import DiagramMarkup.Proofs.Lookups
import DiagramMarkup.Proofs.Leftovers
import DiagramMarkup.Proofs.Words
import DiagramMarkup.Proofs.Heads
import DiagramMarkup.Proofs.Arguments
import DiagramMarkup.Proofs.Sums
import DiagramMarkup.Proofs.Measures
import DiagramMarkup.Proofs.Boxes
import DiagramMarkup.Proofs.Moves
import DiagramMarkup.Proofs.Enclosures
import DiagramMarkup.Proofs.Identifiers
import DiagramMarkup.Proofs.Fillings
import DiagramMarkup.Proofs.Openings
import DiagramMarkup.Proofs.Instances
import DiagramMarkup.Proofs.Shuffles
import DiagramMarkup.Proofs.TextBoxes
import DiagramMarkup.Proofs.Cascade
import DiagramMarkup.Proofs.Selectors
import DiagramMarkup.Proofs.Deferrals
import DiagramMarkup.Proofs.Usability
import DiagramMarkup.Proofs.Segments
import DiagramMarkup.Proofs.Requoting
import DiagramMarkup.Proofs.NaturalOrder
import DiagramMarkup.Proofs.Disks
import DiagramMarkup.Proofs.Attempts
import DiagramMarkup.Proofs.Verdicts
import DiagramMarkup.Proofs.InnerPaths
import DiagramMarkup.Proofs.FileNames
import DiagramMarkup.Proofs.Recognition
import DiagramMarkup.Proofs.Prologs
import DiagramMarkup.Proofs.Combinations
import DiagramMarkup.Proofs.Previews
import DiagramMarkup.Proofs.Hierarchy
import DiagramMarkup.Proofs.Comments
