import VectorMotion.Document.Transform
import VectorMotion.Geometry.Affine
import VectorMotion.Keyframe.Track

/-!
# Transforms over time

The transform of a layer, of the contents of a group, and of one step of a repeater. All of them
are made of the same tracks; a group's transform can also skew, and a repeater's step also fades.
-/

namespace VectorMotion.Scene

variable {S P : Type} [Scalar S] [Scalar P] [Widen S P]

/-- The track of a property that is a number. -/
def amount (default : S) (property : Document.Amount S) : Track S S :=
  Track.ofProperty id default property

/-- The track of a property that is a point in the plane. -/
def point (default : Vec2 S) (property : Document.Point S) : Track S (Vec2 S) :=
  Track.ofProperty Document.Triple.plane default property

/-- A percentage as a fraction between zero and one. -/
def fractionOf (percent : S) : S := Scalar.clamp (percent / 100) 0 1

/-- A position over time, as one track of points or two of numbers. -/
inductive Placement (S : Type) where
  | unified (point : Track S (Vec2 S))
  | split (x y : Track S S)
  deriving Repr, Inhabited

namespace Placement

/-- The position that a document describes. -/
def ofDocument : Document.Position S → Placement S
  | .unified property => unified (point Vec2.zero property)
  | .split x y => split (amount 0 x) (amount 0 y)

/-- The position brought to a time. -/
def update (placement : Placement S) (time : S) : Placement S :=
  match placement with
  | unified track => unified (track.update time)
  | split x y => split (x.update time) (y.update time)

/-- The position at the time it was last brought to. -/
def value : Placement S → Vec2 S
  | unified track => track.value
  | split x y => ⟨x.value, y.value⟩

/-- Whether the coordinates have tracks of their own. -/
def isSplit : Placement S → Bool
  | unified _ => false
  | split .. => true

end Placement

/-- Anchor, position, scale, rotation and opacity. Scale and opacity are tracked in percent and
the rotation in degrees. -/
structure Transform (S : Type) where
  anchor : Track S (Vec2 S)
  placement : Placement S
  percentScale : Track S (Vec2 S)
  rotation : Track S S
  percentOpacity : Track S S
  deriving Repr, Inhabited

namespace Transform

/-- The transform that a document describes. -/
def ofDocument (authored : Document.Transform S) : Transform S :=
  { anchor := point Vec2.zero authored.anchor
    placement := Placement.ofDocument authored.position
    percentScale := point (Vec2.both 100) authored.scale
    rotation := amount 0 authored.rotation
    percentOpacity := amount 100 authored.opacity }

/-- The transform brought to a time. -/
def update (transform : Transform S) (time : S) : Transform S :=
  { anchor := transform.anchor.update time
    placement := transform.placement.update time
    percentScale := transform.percentScale.update time
    rotation := transform.rotation.update time
    percentOpacity := transform.percentOpacity.update time }

/-- The position. -/
def position (transform : Transform S) : Vec2 S := transform.placement.value

/-- The factors along the axes. -/
def scale (transform : Transform S) : Vec2 S := transform.percentScale.value.divide 100

/-- The opacity between zero and one. -/
def opacity (transform : Transform S) : S := fractionOf transform.percentOpacity.value

/-- The matrix of the transform with a skew between its rotation and its scale: the anchor is
moved to the origin, the rest happens around it, and it ends up at the position. -/
def matrixWith (transform : Transform S) (skew : Matrix3 S) : Matrix3 S :=
  Matrix3.displacement transform.position *
    Matrix3.rotation (Scalar.toRadians transform.rotation.value) * skew *
    Matrix3.scaling transform.scale * Matrix3.displacement (-transform.anchor.value)

/-- The map of the transform. -/
def map (transform : Transform S) : Affine P :=
  Affine.ofMatrix (transform.matrixWith Matrix3.identity)

end Transform

/-- The skew of a group: the direction of its axis, and the tangent of its angle. -/
structure Shear (S : Type) where
  x : S
  y : S
  slope : S
  deriving Repr, BEq, Inhabited

/-- The skew by an angle along an axis, both in degrees. A positive angle leans to the left. -/
def Shear.ofAngles (skew axis : S) : Shear S :=
  let axis := Scalar.toRadians axis
  ⟨Scalar.cos axis, Scalar.sin axis, Scalar.tan (-(Scalar.toRadians skew))⟩

/-- The transform of the contents of a group. -/
structure GroupTransform (S : Type) where
  transform : Transform S
  skew : Track S S
  skewAxis : Track S S
  shear : Shear S
  deriving Repr, Inhabited

namespace GroupTransform

/-- A group transform whose shear is that of its skew. -/
def sheared (transform : Transform S) (skew skewAxis : Track S S) : GroupTransform S :=
  { transform, skew, skewAxis, shear := Shear.ofAngles skew.value skewAxis.value }

/-- The transform that a document describes. -/
def ofDocument (authored : Document.Transform S) : GroupTransform S :=
  sheared (Transform.ofDocument authored) (amount 0 authored.skew) (amount 0 authored.skewAxis)

/-- The transform brought to a time. -/
def update (group : GroupTransform S) (time : S) : GroupTransform S :=
  sheared (group.transform.update time) (group.skew.update time) (group.skewAxis.update time)

/-- The skew as a matrix: the axis is turned onto the first coordinate axis, the shear is carried
out there, and the axis is turned back. -/
def skewMatrix (group : GroupTransform S) : Matrix3 S :=
  let axis := Scalar.toRadians group.skewAxis.value
  Matrix3.rotation axis * Matrix3.shear group.shear.slope * Matrix3.rotation (-axis)

/-- The map of the transform. -/
def map (group : GroupTransform S) : Affine P :=
  Affine.ofMatrix (group.transform.matrixWith group.skewMatrix)

end GroupTransform

/-- What one step of a repeater does, and how its copies fade from the first to the last. -/
structure Step (S : Type) where
  transform : Transform S
  startOpacity : Track S S
  endOpacity : Track S S
  /-- The opacities of the copies, between zero and one. -/
  opacities : Array S
  deriving Repr, Inhabited

namespace Step

/-- The opacity of one of `copies` copies: on a straight way from start to end, which the copy
after the last would reach. -/
def fade (start finish : S) (copies index : Nat) : S :=
  fractionOf (start + (finish - start) * Scalar.ofNat index / Scalar.ofNat copies)

/-- The step with the opacities of so many copies. -/
def fadeOver (step : Step S) (copies : Nat) : Step S :=
  let opacities :=
    (Array.range copies).map (fade step.startOpacity.value step.endOpacity.value copies)
  { step with opacities }

/-- The step that a document describes, without opacities. -/
def ofDocument (authored : Document.Step S) : Step S :=
  { transform := Transform.ofDocument authored.transform
    startOpacity := amount 100 authored.startOpacity
    endOpacity := amount 100 authored.endOpacity
    opacities := #[] }

/-- The step brought to a time. Its opacities are not touched. -/
def update (step : Step S) (time : S) : Step S :=
  { step with
    transform := step.transform.update time
    startOpacity := step.startOpacity.update time
    endOpacity := step.endOpacity.update time }

/-- The opacity of a copy. A copy that there is not cannot be seen. -/
def opacityAt (step : Step S) (index : Nat) : S := step.opacities.getD index 0

/-- The matrix of one step: turned and scaled around the anchor, and moved by the position. -/
def matrix (step : Step S) : Matrix3 S :=
  let transform := step.transform
  Matrix3.displacement transform.position * Matrix3.displacement transform.anchor.value *
    Matrix3.rotation (Scalar.toRadians transform.rotation.value) *
    Matrix3.scaling transform.scale * Matrix3.displacement (-transform.anchor.value)

end Step

end VectorMotion.Scene
