import VectorMotion.Geometry.Matrix

/-!
# Affine maps

Maps of the plane over the outline scalar: the six coefficients with which outlines are placed and
which a drawing writes down.
-/

namespace VectorMotion

/-- The map that sends `(x, y)` to `(a x + c y + e, b x + d y + f)`. -/
@[ext]
structure Affine (P : Type) where
  a : P
  b : P
  c : P
  d : P
  e : P
  f : P
  deriving Repr, BEq, Inhabited

namespace Affine

variable {S P : Type} [Scalar S] [Scalar P]

/-- The identity. -/
def identity : Affine P := ⟨1, 0, 0, 1, 0, 0⟩

/-- The upper two rows of a matrix. -/
def ofMatrix [Widen S P] (m : Matrix3 S) : Affine P :=
  ⟨widen m.first.x, widen m.first.y, widen m.second.x, widen m.second.y, widen m.third.x,
    widen m.third.y⟩

/-- The map that first applies the right factor. -/
instance : Mul (Affine P) :=
  ⟨fun m n =>
    { a := m.a * n.a + m.c * n.b
      b := m.b * n.a + m.d * n.b
      c := m.a * n.c + m.c * n.d
      d := m.b * n.c + m.d * n.d
      e := m.a * n.e + m.c * n.f + m.e
      f := m.b * n.e + m.d * n.f + m.f }⟩

/-- The image of a point. -/
def apply (m : Affine P) (p : Vec2 P) : Vec2 P :=
  ⟨m.a * p.x + m.c * p.y + m.e, m.b * p.x + m.d * p.y + m.f⟩

/-- The factor by which areas grow. -/
def determinant (m : Affine P) : P := m.a * m.d - m.b * m.c

end Affine

end VectorMotion
