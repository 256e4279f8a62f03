import LayerBlend.BlendPass
import LayerBlend.Main
import LayerBlend.Registry
import LayerBlend.Retry.Suspended
import LayerBlend.Proofs.Formula.Grammar
import LayerBlend.Proofs.Formula.Pointwise
import LayerBlend.Proofs.Outcome
import LayerBlend.Proofs.Formula.ParserSoundness
import LayerBlend.Proofs.Arithmetic.Normalization
import LayerBlend.Proofs.Formula.Compilation
import LayerBlend.Proofs.Formula.Safety
import LayerBlend.Proofs.Formula.Elementwise
import LayerBlend.Proofs.Formula.Following
import LayerBlend.Proofs.Formula.ParserCompleteness
import LayerBlend.Proofs.Formula.ParserRefusals
import LayerBlend.Proofs.Pixels.Viewing
import LayerBlend.Proofs.Rect.Algebra
import LayerBlend.Proofs.Pixels.Layout
import LayerBlend.Proofs.Composite.PerPixel
import LayerBlend.Proofs.Formula.Lexemes
import LayerBlend.Proofs.Formula.Lexing
import LayerBlend.Proofs.Formula.ParserStability
import LayerBlend.Proofs.Formula.Brackets
import LayerBlend.Proofs.Formula.Expansion
import LayerBlend.Proofs.Formula.Spacing
import LayerBlend.Proofs.Formula.NormalForm
import LayerBlend.Proofs.Json.RoundTrip
import LayerBlend.Proofs.Workspace.Files
import LayerBlend.Proofs.Workspace.Work
import LayerBlend.Proofs.Preset.Item
import LayerBlend.Proofs.Preset.Document
import LayerBlend.Proofs.Preset.Shelf
import LayerBlend.Proofs.Preset.Refinement
import LayerBlend.Proofs.Formula.Verdicts
import LayerBlend.Retry.Calls
import LayerBlend.Proofs.Retry.Calls
import LayerBlend.Proofs.Arithmetic.Commutativity
import LayerBlend.Proofs.BlendPass.Trace
import LayerBlend.Proofs.Formula.Likeness
import LayerBlend.Proofs.Formula.Mirror
import LayerBlend.Proofs.Composite.Mirror
import LayerBlend.Proofs.Arithmetic.Rounding
import LayerBlend.Proofs.Arithmetic.Unpacked
import LayerBlend.Proofs.Arithmetic.Packing
import LayerBlend.Proofs.Arithmetic.Values
import LayerBlend.Proofs.Composite.ChannelBytes
import LayerBlend.Proofs.Composite.PassThrough
import LayerBlend.Proofs.Arithmetic.Parts
import LayerBlend.Proofs.Composite.Quantization
import LayerBlend.Proofs.BlendPass.Emptiness
import LayerBlend.Proofs.Preset.Persistence
import LayerBlend.Proofs.Workspace.Paths
import LayerBlend.Proofs.Workspace.Siblings
import LayerBlend.Proofs.Preset.Conversion
import LayerBlend.Proofs.Preset.Recovery
import LayerBlend.Proofs.Preset.Sparing
import LayerBlend.Proofs.Preset.Backups
import LayerBlend.Proofs.Numeral.Nearest
import LayerBlend.Proofs.Numeral.Shortest
import LayerBlend.Proofs.Json.Scalars
import LayerBlend.Proofs.Json.Doubles
import LayerBlend.Proofs.Json.Halves
import LayerBlend.Proofs.Json.Reading
import LayerBlend.Proofs.Json.Sameness
import LayerBlend.Proofs.Preset.Rereading
import LayerBlend.Proofs.Preset.Importing
import LayerBlend.Proofs.Preset.Collapse
import LayerBlend.Proofs.Preset.Merging
import LayerBlend.Proofs.Preset.Stability
import LayerBlend.Proofs.Preset.Identifiers
import LayerBlend.Proofs.Preset.Identified
import LayerBlend.Proofs.Preset.History
import LayerBlend.Proofs.Formula.Components
import LayerBlend.Proofs.Formula.Adjacency
import LayerBlend.Proofs.Formula.ParserSteps
import LayerBlend.Proofs.Formula.Beginnings
import LayerBlend.Proofs.Formula.Loosening
import LayerBlend.Proofs.Formula.Tracking
import LayerBlend.Proofs.Formula.ViablePrefixes
import LayerBlend.Proofs.Formula.FaultPositions
import LayerBlend.Proofs.Composite.OnCanvas
import LayerBlend.Proofs.Formula.NamedChannels
