import VectorMotion.Document.Values

/-!
# Blending

How the values of an attribute are mixed on the way from one keyframe to the next. Numbers, points
and colours are mixed in proportion. Tables and outlines are mixed entry by entry when both have
the same shape; otherwise the first is kept until the way is at its end.

Only points can bend their way: with tangents they follow a cubic curve.
-/

namespace VectorMotion

/-- Values that can be mixed. -/
class Blend (S V : Type) where
  /-- The value on the way from `a` to `b`. -/
  mix : (a b : V) → S → V
  /-- The value on a way that leaves `a` along one tangent and arrives at `b` along another. -/
  mixAlong : (a b : V) → S → (tangentOut tangentIn : Vec2 S) → V := fun a b t _ _ => mix a b t

namespace Blend

variable {S : Type} [Scalar S]

/-- The number on the way from `a` to `b`. -/
def number (a b t : S) : S := a + (b - a) * t

/-- The point of the cubic curve from `a` to `b` whose control points lie at the tangents. -/
def pointAlong (a b : Vec2 S) (t : S) (tangentOut tangentIn : Vec2 S) : Vec2 S :=
  let control := a + tangentOut
  let control' := b + tangentIn
  let rest := 1 - t
  let restSquare := rest * rest
  let restCube := restSquare * rest
  let square := t * t
  let cube := square * t
  a.scale restCube + ((control.scale 3).scale restSquare).scale t +
    ((control'.scale 3).scale rest).scale square + b.scale cube

/-- A table on the way from `a` to `b`. -/
def table (a b : List S) (t : S) : List S :=
  if a.length != b.length then if t < 1 then a else b
  else List.zipWith (fun x y => number x y t) a b

/-- Points on the way from those of `a` to those of `b`. -/
def points (a b : List (Vec2 S)) (t : S) : List (Vec2 S) :=
  List.zipWith (fun p q => ⟨number p.x q.x t, number p.y q.y t⟩) a b

/-- Whether two outlines have equally many vertices and tangents. -/
def sameShape (a b : Document.Vertices S) : Bool :=
  a.points.length == b.points.length && a.arriving.length == b.arriving.length &&
    a.leaving.length == b.leaving.length

/-- An outline on the way from `a` to `b`. Whether it is closed is taken from the first until the
end. -/
def vertices (a b : Document.Vertices S) (t : S) : Document.Vertices S :=
  if sameShape a b then
    { closed := if t < 1 then a.closed else b.closed
      arriving := points a.arriving b.arriving t
      leaving := points a.leaving b.leaving t
      points := points a.points b.points t }
  else if t < 1 then a else b

instance : Blend S S where
  mix := number

instance : Blend S (Vec2 S) where
  mix a b t := a.lerp b t
  mixAlong := pointAlong

instance : Blend S (Rgba S) where
  mix a b t := a.lerp b t

instance : Blend S (List S) where
  mix := table

instance : Blend S (Document.Vertices S) where
  mix := vertices

end Blend

end VectorMotion
