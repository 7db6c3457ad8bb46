import VectorMotion.Geometry.Path
import VectorMotion.Document.Values

/-!
# Outlines of the basic shapes

The paths of rectangles, ellipses, circles and free-form shapes. Angles follow the convention of
screens, on which the second coordinate grows downward: the point at angle `α` of an ellipse is
`(x + r cos α, y - r' sin α)`, so a quarter turn is its top.
-/

namespace VectorMotion.Path

variable {S P : Type} [Scalar S] [Scalar P] [Widen S P]

/-- The point of an ellipse at an angle. -/
def arcPoint (center radii : Vec2 P) (angle : P) : Vec2 P :=
  ⟨center.x + radii.x * Scalar.cos angle, center.y - radii.y * Scalar.sin angle⟩

/-- The direction in which the point moves as the angle grows. -/
def arcDirection (radii : Vec2 P) (angle : P) : Vec2 P :=
  ⟨-radii.x * Scalar.sin angle, -radii.y * Scalar.cos angle⟩

/-- Cubic curves for `count` steps of an arc from an angle; `reach` is the length of the tangents
for one step. -/
def arcPieces (center radii : Vec2 P) (step reach : P) : Nat → P → Path P
  | 0, _ => []
  | count + 1, angle =>
    let next := angle + step
    let start := arcPoint center radii angle
    let finish := arcPoint center radii next
    .cubic (start + (arcDirection radii angle).scale reach)
        (finish - (arcDirection radii next).scale reach) finish ::
      arcPieces center radii step reach count next

/-- An arc of an ellipse in `pieces` curves, from a path that is already at its start. Angles are
in degrees; a piece should not span more than a quarter turn. -/
def arc (center radii : Vec2 P) (start sweep : P) (pieces : Nat) : Path P :=
  let step := Scalar.toRadians (sweep / Scalar.ofNat pieces)
  let reach := 4 / 3 * Scalar.tan (step / 4)
  arcPieces center radii step reach pieces (Scalar.toRadians start)

/-- Whether a size is no number in both directions. No rectangle has such a size: nothing bounds
the rounding of its corners. -/
def unbounded (size : Vec2 S) : Bool := Scalar.isNaN size.x && Scalar.isNaN size.y

/-- A rectangle around a position. A positive roundness rounds every corner, up to half the
shorter side. A plain rectangle starts at its upper left corner and a rounded one below it, at the
end of the left side. -/
def rectangle (position size : Vec2 S) (roundness : S) : Path P :=
  let size := size.abs
  let corner := position - size.divide 2
  let x : P := widen corner.x
  let y : P := widen corner.y
  let w : P := widen size.x
  let h : P := widen size.y
  let r := Scalar.clamp (widen roundness) 0 (Scalar.min w h / 2)
  if r ≤ 0 then
    [.move ⟨x, y⟩, .line ⟨x + w, y⟩, .line ⟨x + w, y + h⟩, .line ⟨x, y + h⟩, .close]
  else
    let radii : Vec2 P := ⟨r, r⟩
    .move ⟨x, y + r⟩ :: arc ⟨x + r, y + r⟩ radii 180 (-90) 1 ++
      .line ⟨x + w - r, y⟩ :: arc ⟨x + w - r, y + r⟩ radii 90 (-90) 1 ++
      .line ⟨x + w, y + h - r⟩ :: arc ⟨x + w - r, y + h - r⟩ radii 0 (-90) 1 ++
      .line ⟨x + r, y + h⟩ :: arc ⟨x + r, y + h - r⟩ radii 270 (-90) 1 ++ [.close]

/-- The ellipse in a box around a position: two half arcs from the top. -/
def ellipse (position size : Vec2 S) : Path P :=
  let center : Vec2 P := position.toPoint
  let radii : Vec2 P := (size.divide 2).abs.toPoint
  .move (arcPoint center radii (Scalar.toRadians 90)) ::
    arc center radii 90 (-180) 2 ++ arc center radii (-90) (-180) 2

/-- A full circle from the top, swept in the other sense than an ellipse. -/
def circle (position : Vec2 S) (radius : S) : Path P :=
  let center : Vec2 P := position.toPoint
  let r : P := widen (Scalar.abs radius)
  let radii : Vec2 P := ⟨r, r⟩
  .move (arcPoint center radii (Scalar.toRadians 90)) :: arc center radii 90 360 4

/-- A vertex with the ends of its two tangents. -/
structure Knot (S : Type) where
  point : Vec2 S
  arriving : Vec2 S
  leaving : Vec2 S

/-- The knots of a vertex list. A tangent that is left out is zero. -/
def knots : List (Vec2 S) → List (Vec2 S) → List (Vec2 S) → List (Knot S)
  | [], _, _ => []
  | point :: points, arriving, leaving =>
    ⟨point, arriving.headD Vec2.zero, leaving.headD Vec2.zero⟩ ::
      knots points arriving.tail leaving.tail

/-- The curve from one knot to another. -/
def join (a b : Knot S) : PathElement P :=
  .cubic (a.point + a.leaving).toPoint (b.point + b.arriving).toPoint b.point.toPoint

/-- The curves through knots, from the first on. -/
def through (start : Knot S) : List (Knot S) → Path P
  | [] => []
  | next :: rest => join start next :: through next rest

/-- The path through the vertices of a free-form shape. A closed one with more than one vertex has
one more curve, back to the first. -/
def freeForm (shape : Document.Vertices S) : Path P :=
  match knots shape.points shape.arriving shape.leaving with
  | [] => []
  | first :: rest =>
    let back : Path P :=
      match rest.getLast? with
      | some last => if shape.closed then [join last first] else []
      | none => []
    .move first.point.toPoint :: through first rest ++ back

end VectorMotion.Path
