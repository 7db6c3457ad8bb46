import VectorMotion.Geometry.Vector

/-!
# Three by three matrices

Matrices over the attribute scalar, from which the transforms of layers, groups and repeater steps
are multiplied together. A matrix is three columns. Products are computed column by column and
summed from the left, so that every entry is rounded in one fixed order.
-/

namespace VectorMotion

/-- A column of three. -/
@[ext]
structure Column (S : Type) where
  x : S
  y : S
  z : S
  deriving Repr, BEq, Inhabited

/-- Three columns. -/
@[ext]
structure Matrix3 (S : Type) where
  first : Column S
  second : Column S
  third : Column S
  deriving Repr, BEq, Inhabited

namespace Column

variable {S : Type} [Scalar S]

/-- The cross product. -/
def cross (a b : Column S) : Column S :=
  ⟨a.y * b.z - b.y * a.z, a.z * b.x - b.z * a.x, a.x * b.y - b.x * a.y⟩

/-- Sum of the products of the entries. -/
def dot (a b : Column S) : S := a.x * b.x + a.y * b.y + a.z * b.z

/-- Every entry times `k`. -/
def scale (c : Column S) (k : S) : Column S := ⟨c.x * k, c.y * k, c.z * k⟩

end Column

namespace Matrix3

variable {S : Type} [Scalar S]

/-- The identity. -/
def identity : Matrix3 S := ⟨⟨1, 0, 0⟩, ⟨0, 1, 0⟩, ⟨0, 0, 1⟩⟩

/-- Moves by a vector. -/
def displacement (v : Vec2 S) : Matrix3 S := ⟨⟨1, 0, 0⟩, ⟨0, 1, 0⟩, ⟨v.x, v.y, 1⟩⟩

/-- Stretches along the axes. -/
def scaling (v : Vec2 S) : Matrix3 S := ⟨⟨v.x, 0, 0⟩, ⟨0, v.y, 0⟩, ⟨0, 0, 1⟩⟩

/-- Turns by an angle in radians. -/
def rotation (angle : S) : Matrix3 S :=
  ⟨⟨Scalar.cos angle, Scalar.sin angle, 0⟩, ⟨-(Scalar.sin angle), Scalar.cos angle, 0⟩, ⟨0, 0, 1⟩⟩

/-- Moves every point along the first axis, in proportion to its second coordinate. -/
def shear (factor : S) : Matrix3 S := ⟨⟨1, 0, 0⟩, ⟨factor, 1, 0⟩, ⟨0, 0, 1⟩⟩

/-- The image of a column. -/
def apply (m : Matrix3 S) (v : Column S) : Column S :=
  { x := m.first.x * v.x + m.second.x * v.y + m.third.x * v.z
    y := m.first.y * v.x + m.second.y * v.y + m.third.y * v.z
    z := m.first.z * v.x + m.second.z * v.y + m.third.z * v.z }

/-- The product, which first applies the right factor. -/
instance : Mul (Matrix3 S) := ⟨fun a b => ⟨a.apply b.first, a.apply b.second, a.apply b.third⟩⟩

/-- The rows as columns. -/
def transpose (m : Matrix3 S) : Matrix3 S :=
  ⟨⟨m.first.x, m.second.x, m.third.x⟩, ⟨m.first.y, m.second.y, m.third.y⟩,
    ⟨m.first.z, m.second.z, m.third.z⟩⟩

/-- The inverse by cofactors, where there is one. -/
def inverse (m : Matrix3 S) : Matrix3 S :=
  let one := m.second.cross m.third
  let two := m.third.cross m.first
  let three := m.first.cross m.second
  let factor := 1 / m.third.dot three
  (Matrix3.mk (one.scale factor) (two.scale factor) (three.scale factor)).transpose

/-- The product of `steps` factors `base`, multiplied onto `start` one after the other. -/
def times (start base : Matrix3 S) : Nat → Matrix3 S
  | 0 => start
  | steps + 1 => times (start * base) base steps

/-- The power of a matrix. -/
def power (base : Matrix3 S) (steps : Nat) : Matrix3 S := times identity base steps

end Matrix3

end VectorMotion
