import VectorMotion.Curve.Measure

/-!
# Cutting outlines by length

A trim keeps the part of some paths between two fractions of their length, shifted by an offset
that runs around in a circle. The paths are laid end to end, so that one window is measured over
all of them, and each path keeps its own pieces.

Pieces that continue each other on one subpath are drawn without a move between them. Segments
that are too short to matter are left out of the measure and of what is drawn.
-/

namespace VectorMotion.Trim

variable {P : Type} [Scalar P] [Measure P]

/-- Lengths and distances up to this one count as none. -/
def negligible : P := 1e-6

/-- A segment with its subpath and its length. -/
structure Measured (P : Type) where
  subpath : Nat
  segment : Segment P
  length : P
  deriving Repr

/-- The segments of a path that are long enough to count. -/
def measure (path : Path P) : List (Measured P) :=
  (path.trace.map fun (subpath, segment) => ⟨subpath, segment, Measure.length segment⟩).filter
    fun measured => negligible < measured.length

/-- The length of some measured segments. -/
def totalLength (segments : List (Measured P)) : P :=
  segments.foldl (fun sum measured => sum + measured.length) 0

/-- Where the last piece ended: its subpath and its last point. -/
abbrev Cursor (P : Type) := Option (Nat × Vec2 P)

/-- Whether a piece on a subpath continues at the cursor. -/
def continues (cursor : Cursor P) (subpath : Nat) (start : Vec2 P) : Bool :=
  match cursor with
  | some (last, point) => last == subpath && (point - start).length < negligible
  | none => false

/-- The part of a segment between two lengths, where the segment itself covers those from `start`
to `finish`. -/
def piece? (measured : Measured P) (start finish low high : P) : Option (Segment P) :=
  if finish ≤ low || high ≤ start then none
  else
    let first : P := if start < low then Measure.parameterAt measured.segment (low - start) else 0
    let last : P := if high < finish then Measure.parameterAt measured.segment (high - start) else 1
    if last - first ≤ 0 then none
    else if first ≤ 0 && 1 ≤ last then some measured.segment
    else some (measured.segment.between first last)

/-- The pieces of measured segments between the lengths `low` and `high`; `covered` is the length
in front of the first of them. -/
def cutSpan (low high : P) : P → Cursor P → List (Measured P) → Path P × Cursor P
  | _, cursor, [] => ([], cursor)
  | covered, cursor, measured :: rest =>
    let reached := covered + measured.length
    match piece? measured covered reached low high with
    | none => cutSpan low high reached cursor rest
    | some piece =>
      let start := if continues cursor measured.subpath piece.start then [] else [.move piece.start]
      let (drawn, cursor) := cutSpan low high reached (some (measured.subpath, piece.finish)) rest
      (start ++ piece.element :: drawn, cursor)

/-- The pieces within several spans, drawn one span after the other. -/
def cutSpans : List (P × P) → Cursor P → List (Measured P) → Path P
  | [], _, _ => []
  | (low, high) :: spans, cursor, segments =>
    let (drawn, cursor) := cutSpan low high 0 cursor segments
    drawn ++ cutSpans spans cursor segments

/-- Cuts paths that are laid end to end; `base` is the length in front of the first. -/
def cutAll (spans : List (P × P)) : P → List (List (Measured P)) → List (Path P)
  | _, [] => []
  | base, segments :: rest =>
    cutSpans (spans.map fun (low, high) => (low - base, high - base)) none segments ::
      cutAll spans (base + totalLength segments) rest

/-- The lengths that a window of fractions keeps of a total. A window that runs past the end comes
as two spans, the second from the beginning. -/
def spans (start finish offset total : P) : List (P × P) :=
  let first := Scalar.wrap (start + offset) 1
  let last := first + (finish - start)
  if last ≤ 1 then [(first * total, last * total)]
  else [(first * total, total), (0, (last - 1) * total)]

/-- What a window of fractions keeps of some paths, path by path. Start and finish are brought into
order within zero and one. An empty window keeps nothing and a full one everything, whatever its
offset. -/
def paths (paths : List (Path P)) (start finish offset : P) : List (Path P) :=
  let start := Scalar.clamp start 0 1
  let finish := Scalar.clamp finish 0 1
  let (low, high) := if finish < start then (finish, start) else (start, finish)
  let nothing := paths.map fun _ => []
  if Scalar.abs (high - low) < negligible then nothing
  else if low ≤ 0 && 1 ≤ high then paths
  else
    let measured := paths.map measure
    let total := measured.foldl (fun sum segments => sum + totalLength segments) 0
    if total ≤ negligible then nothing
    else cutAll (spans low high offset total) 0 measured

/-- What a window of fractions keeps of one path. -/
def path (path : Path P) (start finish offset : P) : Path P :=
  (paths [path] start finish offset).headD []

end VectorMotion.Trim
