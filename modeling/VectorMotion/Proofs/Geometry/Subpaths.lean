import VectorMotion.Scene.Shape

/-!
# Subpaths

An outline that is put together from others can be taken apart again in front of its moves, because
every shape is one subpath: a move, and behind it instructions that are no moves. This holds of all
contours in either direction, and it stays so when an outline is placed by a map.
-/

namespace VectorMotion.Path

open Scene

variable {P : Type}

/-- Nothing, or one subpath. -/
inductive Single : Path P → Prop where
  | nothing : Single []
  | subpath (origin : Vec2 P) (rest : Path P) (noMove : ∀ point, .move point ∉ rest) :
      Single (.move origin :: rest)

/-- Instructions that are no moves are not taken apart. -/
theorem subpaths_no_move (first : PathElement P) (rest : Path P)
    (noMove : ∀ point, .move point ∉ rest) : subpaths (first :: rest) = [first :: rest] := by
  induction rest generalizing first with
  | nil => rfl
  | cons second rest inductionHypothesis =>
    have inside := inductionHypothesis second fun point member =>
      noMove point (List.mem_cons_of_mem _ member)
    rw [subpaths, inside]
    cases second with
    | move point => exact absurd List.mem_cons_self (noMove point)
    | _ => rfl

/-- A single subpath is the only part of itself. -/
theorem Single.subpaths {path : Path P} (single : Single path) (outlined : path ≠ []) :
    path.subpaths = [path] := by
  cases single with
  | nothing => exact absurd rfl outlined
  | subpath origin rest noMove => exact subpaths_no_move _ rest noMove

/-- A path that begins with a move has a first subpath, which does too. -/
theorem subpaths_of_move (path : Path P) (starts : startsWithMove path = true) :
    ∃ next others, subpaths path = next :: others ∧ startsWithMove next = true := by
  cases path with
  | nil => cases starts
  | cons element rest =>
    cases element with
    | move origin =>
      rw [subpaths]
      split
      · exact ⟨_, _, rfl, rfl⟩
      · split <;> exact ⟨_, _, rfl, rfl⟩
    | _ => cases starts

/-- What is put behind a path and begins with a move is taken apart from it again. -/
theorem subpaths_append (front back : Path P) (starts : startsWithMove back = true) :
    subpaths (front ++ back) = subpaths front ++ subpaths back := by
  obtain ⟨next, others, parts, nextStarts⟩ := subpaths_of_move back starts
  induction front with
  | nil => rfl
  | cons element front inductionHypothesis =>
    rw [List.cons_append, subpaths, inductionHypothesis, subpaths, parts]
    cases subpaths front with
    | nil => simp [nextStarts]
    | cons first rest => cases firstStarts : startsWithMove first <;> simp [firstStarts]

/-- An outline that is one subpath begins with a move. -/
theorem Single.starts {path : Path P} (single : Single path) (outlined : path ≠ []) :
    startsWithMove path = true := by
  cases single with
  | nothing => exact absurd rfl outlined
  | subpath origin rest noMove => rfl

/-- Curves through knots do not move. -/
theorem through_no_move {S : Type} [Scalar S] [Widen S P] (start : Knot S)
    (knots : List (Knot S)) (point : Vec2 P) :
    .move point ∉ (through start knots : Path P) := by
  induction knots generalizing start with
  | nil => simp [through]
  | cons next rest inductionHypothesis => simp [through, join, inductionHypothesis]

/-- A free form has one subpath. -/
theorem freeForm_single {S : Type} [Scalar S] [Widen S P] (shape : Document.Vertices S) :
    Single (freeForm shape : Path P) := by
  unfold freeForm
  cases knots shape.points shape.arriving shape.leaving with
  | nil => exact .nothing
  | cons first rest =>
    refine .subpath _ _ fun point => ?_
    cases rest.getLast? with
    | none => simp [through_no_move]
    | some last => cases closed : shape.closed <;> simp [through_no_move, join]

/-- Segments are drawn without a move. -/
theorem segments_no_move (segments : List (Segment P)) (point : Vec2 P) :
    .move point ∉ segments.map Segment.element := by
  intro member
  obtain ⟨segment, -, same⟩ := List.mem_map.mp member
  cases segment <;> cases same

variable [Scalar P]

/-- A placed subpath is one subpath. -/
theorem Single.place {path : Path P} (single : Single path) (placed : Affine P) :
    Single (path.place placed) := by
  cases single with
  | nothing => exact .nothing
  | subpath origin rest noMove =>
    refine .subpath _ _ fun point member => ?_
    obtain ⟨element, inside, same⟩ := List.mem_map.mp member
    cases element with
    | move other => exact noMove other inside
    | _ => cases same

/-- An outline that is placed is still one. -/
theorem place_outlined {path : Path P} (outlined : path ≠ []) (placed : Affine P) :
    path.place placed ≠ [] :=
  fun none => outlined (List.map_eq_nil_iff.mp none)

section Outlines

variable {S : Type} [Scalar S] [Widen S P]

/-- Arcs do not move. -/
theorem arc_no_move (center radii : Vec2 P) (step reach : P) (count : Nat) (angle : P)
    (point : Vec2 P) : .move point ∉ arcPieces center radii step reach count angle := by
  induction count generalizing angle with
  | zero => simp [arcPieces]
  | succ count inductionHypothesis => simp [arcPieces, inductionHypothesis]

/-- So has a rectangle. -/
theorem rectangle_single (position size : Vec2 S) (roundness : S) :
    Single (rectangle position size roundness : Path P) := by
  unfold rectangle
  simp only
  split
  · exact .subpath _ _ (by simp)
  · exact .subpath _ _ (by simp [arc, arc_no_move])

/-- So has an ellipse. -/
theorem ellipse_single (position size : Vec2 S) : Single (ellipse position size : Path P) :=
  .subpath _ _ (by simp [arc, arc_no_move])

/-- So has a circle. -/
theorem circle_single (position : Vec2 S) (radius : S) :
    Single (circle position radius : Path P) :=
  .subpath _ _ (by simp [arc, arc_no_move])

end Outlines

/-- A subpath backwards is one subpath. -/
theorem reverse_subpath_single (path : Path P) : Single (reverseSubpath path) := by
  unfold reverseSubpath
  split
  · refine .subpath _ _ fun point => ?_
    split <;> simp [segments_no_move]
  · exact .nothing

/-- A path with one subpath has one when it is reversed. -/
theorem Single.reverse {path : Path P} (single : Single path) : Single path.reverse := by
  by_cases empty : path = []
  · rw [empty]
    exact .nothing
  · rw [Path.reverse, single.subpaths empty, List.flatMap_singleton]
    exact reverse_subpath_single path

/-- Every shape is one subpath, in either direction. -/
theorem untrimmed_single {S : Type} [Scalar S] [Widen S P] (contour : Contour S)
    (reversed : Bool) : Single (Shape.untrimmed contour reversed : Path P) := by
  have single : Single (contour.path : Path P) := by
    cases contour with
    | rectangle position size roundness => exact rectangle_single _ _ _
    | ellipse position size => exact ellipse_single _ _
    | circle position radius => exact circle_single _ _
    | freeForm vertices => exact freeForm_single _
  unfold Shape.untrimmed
  split
  · exact single.reverse
  · exact single

end VectorMotion.Path
