import VectorMotion.Geometry.Vector

/-!
# Easing

The curve that turns the fraction of time that has passed into the fraction of the way that has
been made: a cubic Bézier curve from `(0, 0)` to `(1, 1)` with two control points. To evaluate it
at a time, its parameter is found by Newton's method, which is kept between zero and one.
-/

namespace VectorMotion.Easing

variable {S : Type} [Scalar S]

/-- One coordinate of the curve at a parameter, from that coordinate of the two control points. -/
def coordinate (first second t : S) : S :=
  let rest := 1 - t
  3 * rest * rest * t * first + 3 * rest * t * t * second + t * t * t

/-- How fast the coordinate changes with the parameter. -/
def slope (first second t : S) : S :=
  let rest := 1 - t
  3 * rest * rest * first + 6 * rest * t * (second - first) + 3 * t * t * (1 - second)

/-- A time that is missed by less than this is met. -/
def closeEnough : S := 1e-4

/-- A slope below this is too flat to divide by. -/
def flat : S := 1e-6

/-- At most `steps` steps of Newton's method toward the parameter at which the curve's time is
`time`, from `t`. -/
def refine (first second time : S) : Nat → S → S
  | 0, t => t
  | steps + 1, t =>
    let miss := coordinate first second t - time
    let steep := slope first second t
    if Scalar.abs miss < closeEnough then t
    else if Scalar.abs steep < flat then t
    else refine first second time steps (Scalar.clamp (t - miss / steep) 0 1)

/-- Steps of Newton's method that are tried. -/
def mostSteps : Nat := 8

/-- The fraction of the way at a fraction of the time. Nothing is made before the start and
everything after the end; control points on the diagonal ease nothing. -/
def ease (first second : Vec2 S) (time : S) : S :=
  if time ≤ 0 then 0
  else if 1 ≤ time then 1
  else if first.x == first.y && second.x == second.y then time
  else coordinate first.y second.y (refine first.x second.x time mostSteps time)

end VectorMotion.Easing
