import VectorMotion.Scalar

/-!
# Vectors

Pairs and quadruples of scalars: positions, sizes and tangents, and colours with their opacity.
-/

namespace VectorMotion

/-- A position, size or direction in the plane. -/
@[ext]
structure Vec2 (S : Type) where
  x : S
  y : S
  deriving Repr, BEq, Inhabited

namespace Vec2

variable {S P : Type} [Scalar S] [Scalar P]

instance : Add (Vec2 S) := ⟨fun a b => ⟨a.x + b.x, a.y + b.y⟩⟩

instance : Sub (Vec2 S) := ⟨fun a b => ⟨a.x - b.x, a.y - b.y⟩⟩

instance : Neg (Vec2 S) := ⟨fun a => ⟨-a.x, -a.y⟩⟩

/-- The zero vector. -/
def zero : Vec2 S := ⟨0, 0⟩

/-- Both components equal. -/
def both (s : S) : Vec2 S := ⟨s, s⟩

/-- The vector made `k` times as long. -/
def scale (v : Vec2 S) (k : S) : Vec2 S := ⟨v.x * k, v.y * k⟩

/-- The vector divided by `k`. -/
def divide (v : Vec2 S) (k : S) : Vec2 S := ⟨v.x / k, v.y / k⟩

/-- The magnitude of each component. -/
def abs (v : Vec2 S) : Vec2 S := ⟨Scalar.abs v.x, Scalar.abs v.y⟩

/-- The point on the way from `a` to `b`, at the start for zero and at the end for one. -/
def lerp (a b : Vec2 S) (t : S) : Vec2 S := a + (b - a).scale t

/-- Sum of the products of the components. -/
def dot (a b : Vec2 S) : S := a.x * b.x + a.y * b.y

/-- The length squared. -/
def squareLength (v : Vec2 S) : S := v.dot v

/-- The length. -/
def length (v : Vec2 S) : S := Scalar.hypot v.x v.y

/-- The distance of two points, as the root of the sum of squares. -/
def distance (a b : Vec2 S) : S := Scalar.sqrt (a - b).squareLength

/-- A position among the attributes as a point of an outline. -/
def toPoint [Widen S P] (v : Vec2 S) : Vec2 P := ⟨widen v.x, widen v.y⟩

end Vec2

/-- A colour with its opacity, each component between zero and one where it is meant to show. -/
@[ext]
structure Rgba (S : Type) where
  red : S
  green : S
  blue : S
  alpha : S
  deriving Repr, BEq, Inhabited

namespace Rgba

variable {S : Type} [Scalar S]

/-- Opaque black. -/
def black : Rgba S := ⟨0, 0, 0, 1⟩

/-- The colour on the way from `a` to `b`. -/
def lerp (a b : Rgba S) (t : S) : Rgba S :=
  { red := a.red + (b.red - a.red) * t
    green := a.green + (b.green - a.green) * t
    blue := a.blue + (b.blue - a.blue) * t
    alpha := a.alpha + (b.alpha - a.alpha) * t }

/-- Applies a function to each component. -/
def map {T : Type} (f : S → T) (c : Rgba S) : Rgba T := ⟨f c.red, f c.green, f c.blue, f c.alpha⟩

end Rgba

end VectorMotion
