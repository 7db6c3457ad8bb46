import VectorMotion.Geometry.Affine

/-!
# Paths

An outline is a list of drawing instructions, each carried out from the point that the one before
it ended at. A path may hold several subpaths; each begins with a move.
-/

namespace VectorMotion

/-- One drawing instruction. -/
inductive PathElement (P : Type) where
  /-- Starts a subpath. -/
  | move (point : Vec2 P)
  /-- A straight line. -/
  | line (point : Vec2 P)
  /-- A quadratic curve with its control point. -/
  | quad (control point : Vec2 P)
  /-- A cubic curve with its two control points. -/
  | cubic (control control' point : Vec2 P)
  /-- Ends a subpath at its start. -/
  | close
  deriving Repr, BEq, Inhabited

/-- An outline. -/
abbrev Path (P : Type) := List (PathElement P)

namespace PathElement

variable {P : Type} [Scalar P]

/-- The instruction with every point mapped. -/
def place (m : Affine P) : PathElement P → PathElement P
  | move p => move (m.apply p)
  | line p => line (m.apply p)
  | quad c p => quad (m.apply c) (m.apply p)
  | cubic c c' p => cubic (m.apply c) (m.apply c') (m.apply p)
  | close => close

end PathElement

namespace Path

variable {P : Type} [Scalar P]

/-- The path with every point mapped. -/
def place (m : Affine P) (path : Path P) : Path P := path.map (PathElement.place m)

end Path

end VectorMotion
