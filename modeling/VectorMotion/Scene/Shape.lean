import VectorMotion.Document.Shape
import VectorMotion.Geometry.Outline
import VectorMotion.Geometry.Reversal
import VectorMotion.Keyframe.Track
import VectorMotion.Scene.Transform
import VectorMotion.Trim.Window

/-!
# Shapes over time

An outline that changes with time, with the path it currently has and the trim that is in force
for it. A trim that treats every outline by itself has already cut the path; one that treats all
outlines of a container together is left to the drawing.
-/

namespace VectorMotion.Scene

variable {S P : Type} [Scalar S] [Scalar P] [Widen S P] [Measure P]

/-- The kinds of outline, each with the tracks of its measures. -/
inductive Contour (S : Type) where
  | rectangle (position size : Track S (Vec2 S)) (roundness : Track S S)
  | ellipse (position size : Track S (Vec2 S))
  | circle (position : Track S (Vec2 S)) (radius : Track S S)
  | freeForm (vertices : Track S (Document.Vertices S))
  deriving Repr, Inhabited

namespace Contour

/-- The contour brought to a time. -/
def update (contour : Contour S) (time : S) : Contour S :=
  match contour with
  | rectangle position size roundness =>
    rectangle (position.update time) (size.update time) (roundness.update time)
  | ellipse position size => ellipse (position.update time) (size.update time)
  | circle position radius => circle (position.update time) (radius.update time)
  | freeForm vertices => freeForm (vertices.update time)

/-- The path of the contour at the time it was last brought to. -/
def path : Contour S → Path P
  | rectangle position size roundness =>
    Path.rectangle position.value size.value roundness.value
  | ellipse position size => Path.ellipse position.value size.value
  | circle position radius => Path.circle position.value radius.value
  | freeForm vertices => Path.freeForm vertices.value

/-- Whether the contour is a rectangle whose size is no number in both directions, of which no
path can be made. -/
def unbounded : Contour S → Bool
  | rectangle _ size _ => Path.unbounded size.value
  | ellipse .. | circle .. | freeForm _ => false

/-- A vertex list that is held: open, and with all its tangents zero. -/
def held (vertices : Document.Vertices S) : Document.Vertices S :=
  { vertices with
    closed := false
    arriving := vertices.arriving.map fun _ => Vec2.zero
    leaving := vertices.leaving.map fun _ => Vec2.zero }

/-- The keyframes of an outline with the last one held, when the others say where they end and it
does not. The outline that is held is its own, or else the last one at which another ends. -/
def holdLast (keys : List (Document.Keyframe S (Document.Vertices S))) :
    List (Document.Keyframe S (Document.Vertices S)) :=
  match keys.getLast? with
  | none => keys
  | some last =>
    if last.finish.isSome then keys
    else
      match keys.dropLast.reverse.findSome? (·.finish) with
      | none => keys
      | some reached =>
        keys.dropLast ++ [{ last with start := some (held (last.start.getD reached)) }]

/-- The property of an outline with its last keyframe held. -/
def holdProperty (property : Document.Property S (Document.Vertices S)) :
    Document.Property S (Document.Vertices S) :=
  match property.content with
  | .keyed keys => { property with content := .keyed (holdLast keys) }
  | .absent | .fixed _ => property

/-- The rectangle that a document describes. -/
def ofRectangle (authored : Document.Rectangle S) : Contour S :=
  rectangle (point Vec2.zero authored.position) (point Vec2.zero authored.size)
    (amount 0 authored.roundness)

/-- The ellipse that a document describes. -/
def ofEllipse (authored : Document.Ellipse S) : Contour S :=
  ellipse (point Vec2.zero authored.position) (point Vec2.zero authored.size)

/-- The circle that a document describes. -/
def ofCircle (authored : Document.Circle S) : Contour S :=
  circle (point Vec2.zero authored.position) (amount 0 authored.radius)

/-- The free-form outline that a document describes. -/
def ofFreeForm (authored : Document.FreeForm S) : Contour S :=
  freeForm (Track.ofProperty id {} (holdProperty authored.vertices))

end Contour

/-- A shape: its contour, the path it has at the current time, and the trim in force for it. -/
structure Shape (S P : Type) where
  contour : Contour S
  /-- Whether the path runs backwards. -/
  reversed : Bool
  path : Path P
  trim : Option (Trim.Window S)
  deriving Repr, Inhabited

namespace Shape

/-- The path of a contour in its direction, before any trim. -/
def untrimmed (contour : Contour S) (reversed : Bool) : Path P :=
  if reversed then contour.path.reverse else contour.path

/-- A new shape. Any direction code but zero turns it round. -/
def ofContour (contour : Contour S) (direction : Nat) : Shape S P :=
  let reversed := direction != 0
  { contour, reversed, path := untrimmed contour reversed, trim := none }

/-- What is left of a path under the trim in force. -/
def trimmed (trim : Option (Trim.Window S)) (path : Path P) : Path P :=
  match trim with
  | some window => if window.simultaneous then path else window.cut path
  | none => path

/-- The shape brought to a time, under the trim that is in force then. -/
def update (shape : Shape S P) (time : S) (trim : Option (Trim.Window S)) : Shape S P :=
  let contour := shape.contour.update time
  { contour
    reversed := shape.reversed
    path := trimmed trim (untrimmed contour shape.reversed)
    trim }

end Shape

end VectorMotion.Scene
