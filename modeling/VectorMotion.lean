import VectorMotion.CommandLine
import VectorMotion.Curve.ArcLength
import VectorMotion.Curve.Measure
import VectorMotion.Curve.Segment
import VectorMotion.Decimal.Reading
import VectorMotion.Decimal.Shortest
import VectorMotion.Decimal.Text
import VectorMotion.Document.Animation
import VectorMotion.Document.Encode
import VectorMotion.Document.Property
import VectorMotion.Document.Settings
import VectorMotion.Document.Shape
import VectorMotion.Document.Transform
import VectorMotion.Document.Values
import VectorMotion.FrameRange
import VectorMotion.Geometry.Affine
import VectorMotion.Geometry.Matrix
import VectorMotion.Geometry.Outline
import VectorMotion.Geometry.Path
import VectorMotion.Geometry.Reversal
import VectorMotion.Geometry.Vector
import VectorMotion.Json.Decode
import VectorMotion.Json.Misfit
import VectorMotion.Json.Source
import VectorMotion.Json.Token
import VectorMotion.Json.Value
import VectorMotion.Keyframe.Blend
import VectorMotion.Keyframe.Easing
import VectorMotion.Keyframe.Track
import VectorMotion.Main
import VectorMotion.Player
import VectorMotion.Render.Call
import VectorMotion.Render.Canvas
import VectorMotion.Render.Recorder
import VectorMotion.Render.Trimming
import VectorMotion.Report
import VectorMotion.Scalar
import VectorMotion.Scalar.Binary
import VectorMotion.Scalar.Floating
import VectorMotion.Scene
import VectorMotion.Scene.Build
import VectorMotion.Scene.Effect
import VectorMotion.Scene.Expression
import VectorMotion.Scene.Gradient
import VectorMotion.Scene.Layer
import VectorMotion.Scene.Node
import VectorMotion.Scene.Paint
import VectorMotion.Scene.Parenting
import VectorMotion.Scene.Repeater
import VectorMotion.Scene.Shape
import VectorMotion.Scene.Transform
import VectorMotion.Scene.Tree
import VectorMotion.Scene.TrimPath
import VectorMotion.Svg.Drawing
import VectorMotion.Svg.Markup
import VectorMotion.Text.Blank
import VectorMotion.Text.Quoted
import VectorMotion.Trim.Cut
import VectorMotion.Trim.Mode
import VectorMotion.Trim.Window
import VectorMotion.Proofs.Keyframe.Reset
import VectorMotion.Proofs.Scene.Descent
import VectorMotion.Proofs.Scene.Evaluation
import VectorMotion.Proofs.Scene.Structure
import VectorMotion.Proofs.Scene.Building
import VectorMotion.Proofs.Scene.History
import VectorMotion.Proofs.Scene.Inheritance
import VectorMotion.Proofs.Scene.Numbering
import VectorMotion.Proofs.Scene.Table
import VectorMotion.Proofs.Scene.Reference
import VectorMotion.Proofs.Render.Grammar
import VectorMotion.Proofs.Render.TrimState
import VectorMotion.Proofs.Render.Recording
import VectorMotion.Proofs.Render.Ledger
import VectorMotion.Proofs.Render.Settlement
import VectorMotion.Proofs.Render.Lexical
import VectorMotion.Proofs.Render.Images
import VectorMotion.Proofs.Svg.Reader
import VectorMotion.Proofs.Svg.WellFormed
import VectorMotion.Proofs.Json.Members
import VectorMotion.Proofs.Scene.Degradation
import VectorMotion.Proofs.Scalar.Exact
import VectorMotion.Proofs.Scalar.Ordering
import VectorMotion.Proofs.Scalar.Rounded
import VectorMotion.Proofs.Render.Repeating
import VectorMotion.Proofs.Render.Coats
import VectorMotion.Proofs.Render.Marks
import VectorMotion.Proofs.Render.Painting
import VectorMotion.Proofs.Json.Numbers
import VectorMotion.Proofs.Keyframe.Lookup
import VectorMotion.Proofs.Scene.Lookup
import VectorMotion.Proofs.Scene.Safety
import VectorMotion.Proofs.Render.Nesting
import VectorMotion.Proofs.Scene.LocalTime
import VectorMotion.Proofs.Render.Hiding
import VectorMotion.Proofs.Geometry.Subpaths
import VectorMotion.Proofs.Render.Untrimmed
import VectorMotion.Proofs.Render.Fillings
import VectorMotion.Proofs.Render.Fills
import VectorMotion.Proofs.Playback.Freshness
import VectorMotion.Proofs.Scene.Resolution
import VectorMotion.Proofs.Render.Copies
import VectorMotion.Proofs.Json.Records
import VectorMotion.Proofs.Document.Readable
import VectorMotion.Proofs.Scene.Stripping
import VectorMotion.Proofs.Scene.Agreement
import VectorMotion.Proofs.Scene.Likeness
import VectorMotion.Proofs.Scene.Controls
import VectorMotion.Proofs.Scene.Substitution
import VectorMotion.Proofs.FrameRange
import VectorMotion.Proofs.Playback.Range
import VectorMotion.Proofs.Export.Frames
import VectorMotion.Proofs.Render.Gradients
import VectorMotion.Proofs.Svg.References
import VectorMotion.Proofs.Scene.Blanking
import VectorMotion.Proofs.Scene.Overlooking
import VectorMotion.Proofs.Json.Fragments
import VectorMotion.Proofs.Scene.Numeric
import VectorMotion.Proofs.Scene.Untracked
import VectorMotion.Proofs.Curve.Traversal
import VectorMotion.Proofs.Trim.Pieces
import VectorMotion.Proofs.Trim.Joining
import VectorMotion.Proofs.Render.Merging
import VectorMotion.Proofs.Trim.Parts
import VectorMotion.Proofs.Trim.Coverage
import VectorMotion.Proofs.Trim.Succession
import VectorMotion.Proofs.Trim.Remeasuring
import VectorMotion.Proofs.Trim.Twice
import VectorMotion.Proofs.Scalar.Succession
import VectorMotion.Proofs.Keyframe.Timeline
import VectorMotion.Proofs.Keyframe.Neighbours
import VectorMotion.Proofs.Scene.Mattes
import VectorMotion.Proofs.Scene.Growth
import VectorMotion.Proofs.Scene.Following
import VectorMotion.Proofs.Render.Composing
import VectorMotion.Proofs.Document.Wrapping
import VectorMotion.Proofs.Geometry.Backward
import VectorMotion.Proofs.Geometry.Direction
import VectorMotion.Proofs.Keyframe.Bounds
import VectorMotion.Proofs.Scene.Groups
import VectorMotion.Proofs.Scene.Stops
import VectorMotion.Proofs.Scene.Holding
import VectorMotion.Proofs.Scalar.Values
import VectorMotion.Proofs.Export.Clipping
import VectorMotion.Proofs.Scene.Colors
import VectorMotion.Proofs.Render.Opacities
import VectorMotion.Proofs.Scene.Dashes
import VectorMotion.Proofs.Geometry.Planar
import VectorMotion.Proofs.Render.Stepping
import VectorMotion.Proofs.Scene.Gathering
import VectorMotion.Proofs.Text.Parts
import VectorMotion.Proofs.Scene.Spelling
import VectorMotion.Proofs.Scene.Search
import VectorMotion.Proofs.Scalar.Rounding
import VectorMotion.Proofs.Scalar.Arithmetic
import VectorMotion.Proofs.Scalar.Lengths
import VectorMotion.Proofs.Trim.Alignment
import VectorMotion.Arena
import VectorMotion.Proofs.Arena.Reading
import VectorMotion.Proofs.Arena.Building
import VectorMotion.Proofs.Arena.Updating
import VectorMotion.Proofs.Arena.Consistency
