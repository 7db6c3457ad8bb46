import VectorMotion.Curve.Segment

/-!
# Reversal

A path traversed backwards: its subpaths stay in order, and within each the segments come in
reverse, each flipped. A closed subpath is traced back to its start first, so that its closing
edge is reversed with the others.
-/

namespace VectorMotion.Path

variable {P : Type} [Scalar P]

/-- Whether a path begins with a move. -/
def startsWithMove : Path P → Bool
  | .move _ :: _ => true
  | _ => false

/-- The path cut in front of every move. -/
def subpaths : Path P → List (Path P)
  | [] => []
  | element :: rest =>
    match subpaths rest with
    | [] => [[element]]
    | next :: others =>
      if startsWithMove next then [element] :: next :: others else (element :: next) :: others

/-- The segments of one subpath behind its move, in reverse of their traversal and flipped, and
the point at which the subpath ends. -/
def backward (origin : Vec2 P) :
    Vec2 P → List (Segment P) → Path P → List (Segment P) × Vec2 P
  | current, flipped, [] => (flipped, current)
  | current, flipped, .line p :: rest =>
    backward origin p ((Segment.line current p).flip :: flipped) rest
  | current, flipped, .quad c p :: rest =>
    backward origin p ((Segment.quad current c p).flip :: flipped) rest
  | current, flipped, .cubic c c' p :: rest =>
    backward origin p ((Segment.cubic current c c' p).flip :: flipped) rest
  | current, flipped, .close :: rest =>
    if current == origin then backward origin current flipped rest
    else backward origin origin ((Segment.line current origin).flip :: flipped) rest
  | current, flipped, .move _ :: rest => backward origin current flipped rest

/-- Whether an instruction is a close. -/
def isClose : PathElement P → Bool
  | .close => true
  | _ => false

/-- One subpath backwards. Instructions that no move precedes draw nothing. -/
def reverseSubpath : Path P → Path P
  | .move origin :: rest =>
    let (segments, finish) := backward origin origin [] rest
    .move finish :: segments.map Segment.element ++ if rest.any isClose then [.close] else []
  | _ => []

/-- The path backwards. -/
def reverse (path : Path P) : Path P := path.subpaths.flatMap reverseSubpath

end VectorMotion.Path
