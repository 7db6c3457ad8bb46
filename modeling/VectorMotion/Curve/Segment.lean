import VectorMotion.Geometry.Path

/-!
# Segments

One traversed piece of an outline, with its start point: a line or a Bézier curve of degree two or
three. A segment can be evaluated, cut to a part of its parameter range, turned round, and written
as the drawing instruction that continues from its start.
-/

namespace VectorMotion

/-- A line, a quadratic curve or a cubic curve, from its first to its last point. -/
inductive Segment (P : Type) where
  | line (start finish : Vec2 P)
  | quad (start control finish : Vec2 P)
  | cubic (start control control' finish : Vec2 P)
  deriving Repr, BEq, Inhabited

namespace Segment

variable {P : Type} [Scalar P]

/-- Where the segment begins. -/
def start : Segment P → Vec2 P
  | line p _ | quad p _ _ | cubic p _ _ _ => p

/-- Where the segment ends. -/
def finish : Segment P → Vec2 P
  | line _ p | quad _ _ p | cubic _ _ _ p => p

/-- The segment traversed backwards. -/
def flip : Segment P → Segment P
  | line p q => line q p
  | quad p c q => quad q c p
  | cubic p c c' q => cubic q c' c p

/-- The instruction that draws the segment from its start. -/
def element : Segment P → PathElement P
  | line _ q => .line q
  | quad _ c q => .quad c q
  | cubic _ c c' q => .cubic c c' q

/-- The point of a quadratic curve at parameter `t`. -/
def quadAt (p c q : Vec2 P) (t : P) : Vec2 P :=
  let rest := 1 - t
  p.scale (rest * rest) + (c.scale (rest * 2) + q.scale t).scale t

/-- The point of a cubic curve at parameter `t`. -/
def cubicAt (p c c' q : Vec2 P) (t : P) : Vec2 P :=
  let rest := 1 - t
  p.scale (rest * rest * rest) +
    (c.scale (rest * rest * 3) + (c'.scale (rest * 3) + q.scale t).scale t).scale t

/-- The point at parameter `t`, which runs from zero to one. -/
def eval (segment : Segment P) (t : P) : Vec2 P :=
  match segment with
  | line p q => p + (q - p).scale t
  | quad p c q => quadAt p c q t
  | cubic p c c' q => cubicAt p c c' q t

/-- The part between two parameters. Its control points lie on the tangents at the new ends. -/
def between (segment : Segment P) (t0 t1 : P) : Segment P :=
  match segment with
  | line p q => line (p + (q - p).scale t0) (p + (q - p).scale t1)
  | quad p c q =>
    let start := quadAt p c q t0
    let finish := quadAt p c q t1
    quad start (start + ((c - p).lerp (q - c) t0).scale (t1 - t0)) finish
  | cubic p c c' q =>
    let start := cubicAt p c c' q t0
    let finish := cubicAt p c c' q t1
    let speed := quadAt ((c - p).scale 3) ((c' - c).scale 3) ((q - c').scale 3)
    let third := (t1 - t0) * (1 / 3)
    cubic start (start + (speed t0).scale third) (finish - (speed t1).scale third) finish

end Segment

/-- The segments of a path that is traced from `origin`, now at `current`, each with the number of
its subpath. A close draws a line back to the origin unless the path is there already. `started`
tells whether a move has been made; each later one begins a new subpath. -/
def Path.traceFrom {P : Type} [Scalar P] (origin current : Vec2 P) (started : Bool)
    (subpath : Nat) : Path P → List (Nat × Segment P)
  | [] => []
  | .move p :: rest => traceFrom p p true (if started then subpath + 1 else subpath) rest
  | .line p :: rest => (subpath, .line current p) :: traceFrom origin p started subpath rest
  | .quad c p :: rest => (subpath, .quad current c p) :: traceFrom origin p started subpath rest
  | .cubic c c' p :: rest =>
    (subpath, .cubic current c c' p) :: traceFrom origin p started subpath rest
  | .close :: rest =>
    let edge := if current == origin then [] else [(subpath, Segment.line current origin)]
    edge ++ traceFrom origin origin started subpath rest

/-- The segments of a path in the order of traversal, each with the number of its subpath. -/
def Path.trace {P : Type} [Scalar P] (path : Path P) : List (Nat × Segment P) :=
  path.traceFrom Vec2.zero Vec2.zero false 0

end VectorMotion
