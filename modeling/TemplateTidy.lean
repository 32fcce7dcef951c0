import TemplateTidy.Beautify
import TemplateTidy.Context.Element
import TemplateTidy.Context.Range
import TemplateTidy.Decimal.Limit
import TemplateTidy.Decimal.Nearest
import TemplateTidy.Decimal.Shortest
import TemplateTidy.Disguise
import TemplateTidy.Document
import TemplateTidy.Exclude.Glob
import TemplateTidy.Exclude.Path
import TemplateTidy.Exclude.Pattern
import TemplateTidy.Exclude.Spec
import TemplateTidy.Html.EndTag
import TemplateTidy.Html.StartTag
import TemplateTidy.Html.TagEvent
import TemplateTidy.Json.Number
import TemplateTidy.Json.Reader
import TemplateTidy.Json.Value
import TemplateTidy.Marker.Choice
import TemplateTidy.Marker.Codec
import TemplateTidy.Markup.Attributes
import TemplateTidy.Markup.Element
import TemplateTidy.Markup.Format
import TemplateTidy.Markup.Item
import TemplateTidy.Markup.Layout
import TemplateTidy.Markup.Options
import TemplateTidy.Markup.Printer
import TemplateTidy.Markup.Tag
import TemplateTidy.Options.Key
import TemplateTidy.Options.Lookup
import TemplateTidy.Php.Lexeme
import TemplateTidy.Php.Lexer
import TemplateTidy.Php.Pattern
import TemplateTidy.Php.Rule
import TemplateTidy.Proofs.Context.Bisection
import TemplateTidy.Proofs.Context.Placement
import TemplateTidy.Proofs.Document.Lenient
import TemplateTidy.Proofs.Document.Stages
import TemplateTidy.Proofs.Exclude.Path
import TemplateTidy.Proofs.Exclude.Pattern
import TemplateTidy.Proofs.Exclude.Relocation
import TemplateTidy.Proofs.Html.Walk
import TemplateTidy.Proofs.Marker.Barrier
import TemplateTidy.Proofs.Marker.Decode
import TemplateTidy.Proofs.Marker.Escape
import TemplateTidy.Proofs.Marker.Leak
import TemplateTidy.Proofs.Marker.Nonce
import TemplateTidy.Proofs.Marker.Respell
import TemplateTidy.Proofs.Marker.RoundTrip
import TemplateTidy.Proofs.Marker.Search
import TemplateTidy.Proofs.Marker.Symbol
import TemplateTidy.Proofs.Markup.Atom
import TemplateTidy.Proofs.Markup.Checked
import TemplateTidy.Proofs.Markup.Closing
import TemplateTidy.Proofs.Markup.Composition
import TemplateTidy.Proofs.Markup.Content
import TemplateTidy.Proofs.Markup.Course
import TemplateTidy.Proofs.Markup.Depth
import TemplateTidy.Proofs.Markup.EmptyLines
import TemplateTidy.Proofs.Markup.Flow
import TemplateTidy.Proofs.Markup.Glue
import TemplateTidy.Proofs.Markup.Imprint
import TemplateTidy.Proofs.Markup.Legible
import TemplateTidy.Proofs.Markup.Neighbours
import TemplateTidy.Proofs.Markup.Printing
import TemplateTidy.Proofs.Markup.Rendering
import TemplateTidy.Proofs.Markup.Replay
import TemplateTidy.Proofs.Markup.Reread
import TemplateTidy.Proofs.Markup.Rounds
import TemplateTidy.Proofs.Markup.Scan
import TemplateTidy.Proofs.Markup.Solids
import TemplateTidy.Proofs.Markup.Steady
import TemplateTidy.Proofs.Markup.Stroke
import TemplateTidy.Proofs.Options.Record
import TemplateTidy.Proofs.Options.Translation
import TemplateTidy.Proofs.Options.Words
import TemplateTidy.Proofs.Php.Ending
import TemplateTidy.Proofs.Php.Seam
import TemplateTidy.Proofs.Segment.Balance
import TemplateTidy.Proofs.Segment.Confine
import TemplateTidy.Proofs.Segment.FixedPoint
import TemplateTidy.Proofs.Segment.Leak
import TemplateTidy.Proofs.Segment.Outline
import TemplateTidy.Proofs.Segment.Pipeline
import TemplateTidy.Proofs.Segment.Plain
import TemplateTidy.Proofs.Segment.Restore
import TemplateTidy.Proofs.Segment.Shelter
import TemplateTidy.Proofs.Segment.Whole
import TemplateTidy.Proofs.Settings.Override
import TemplateTidy.Proofs.Settings.Precedence
import TemplateTidy.Proofs.Text.Case
import TemplateTidy.Proofs.Text.Fields
import TemplateTidy.Proofs.Text.Lowering
import TemplateTidy.Proofs.Text.Occurrence
import TemplateTidy.Proofs.Text.Spacing
import TemplateTidy.Proofs.Text.Trim
import TemplateTidy.Proofs.Text.Typeset
import TemplateTidy.Proofs.Token.Grammar
import TemplateTidy.Proofs.Token.Partition
import TemplateTidy.Proofs.Token.Spelling
import TemplateTidy.Settings.Basic
import TemplateTidy.Settings.Folder
import TemplateTidy.Settings.Load
import TemplateTidy.Text.Alphanumeric
import TemplateTidy.Text.Basic
import TemplateTidy.Text.Blank
import TemplateTidy.Text.Case
import TemplateTidy.Text.CaseTable
import TemplateTidy.Text.CharRange
import TemplateTidy.Text.Printable
import TemplateTidy.Text.Quoted
import TemplateTidy.Text.Recogniser
import TemplateTidy.Text.Utf8
import TemplateTidy.Token.Basic
import TemplateTidy.Token.Stream
import TemplateTidy.Trace
