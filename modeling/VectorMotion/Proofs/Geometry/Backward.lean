import VectorMotion.Proofs.Geometry.Subpaths
import VectorMotion.Proofs.Scalar.Exact
import VectorMotion.Proofs.Scalar.Rounded

/-!
# Outlines traversed backwards

A subpath is a walk: each of its segments begins where the one before it ends. A closed subpath that
has not come back to its start by then is traced back to it first. Backwards, the whole walk is made
in reverse, every segment flipped, and it ends at the start of the other. So the walk backwards of a
closed subpath comes back by itself; from there on, turning round twice changes nothing.

Whether a subpath has come back is asked of its last point and of its first, and the other way round
once it is reversed. The answer has to be the same both times, and a start has to be equal to
itself, which it is if its coordinates are numbers.
-/

namespace VectorMotion

/-- Whether two values are the same does not depend on which of them comes first. -/
class Scalar.Symmetric (P : Type) [Scalar P] : Prop where
  same_swapped : ∀ a b : P, (a == b) = (b == a)

instance : Scalar.Symmetric ℝ := ⟨fun _ _ => decide_eq_decide.mpr eq_comm⟩

namespace Rounded

open Float.Model

/-- Values that are taken apart to be compared are the same both ways. -/
theorem same_swapped (a b : UnpackedFloat) : UnpackedFloat.beq a b = UnpackedFloat.beq b a := by
  rw [UnpackedFloat.beq, UnpackedFloat.beq, compare_swapped b a]
  cases UnpackedFloat.compare b a with
  | none => rfl
  | some order => cases order <;> rfl

instance : Scalar.Symmetric Float := ⟨fun a b => same_swapped a.toModel.unpack b.toModel.unpack⟩

instance : Scalar.Symmetric Float32 := ⟨fun a b => same_swapped a.toModel.unpack b.toModel.unpack⟩

end Rounded

variable {P : Type}

namespace Vec2

variable [Scalar P]

/-- Whether both coordinates are numbers. -/
def isNumber (v : Vec2 P) : Bool := !Scalar.isNaN v.x && !Scalar.isNaN v.y

/-- A point with numbers for coordinates is the same as itself. -/
theorem same_self {v : Vec2 P} (number : v.isNumber = true) : (v == v) = true := by
  have both : (v.x == v.x && v.y == v.y) = true := by
    simpa only [isNumber, Scalar.isNaN, Bool.not_not] using number
  exact both

/-- Whether two points count as the same does not depend on their order. -/
theorem same_swapped [Scalar.Symmetric P] (v w : Vec2 P) : (v == w) = (w == v) := by
  show (v.x == w.x && v.y == w.y) = (w.x == v.x && w.y == v.y)
  rw [Scalar.Symmetric.same_swapped v.x, Scalar.Symmetric.same_swapped v.y]

end Vec2

namespace Segment

/-- A segment that is turned round begins where it ended. -/
@[simp]
theorem flip_start (segment : Segment P) : segment.flip.start = segment.finish := by
  cases segment <;> rfl

/-- A segment that is turned round ends where it began. -/
@[simp]
theorem flip_finish (segment : Segment P) : segment.flip.finish = segment.start := by
  cases segment <;> rfl

/-- A segment that is turned round twice is as before. -/
@[simp]
theorem flip_flip (segment : Segment P) : segment.flip.flip = segment := by
  cases segment <;> rfl

end Segment

/-- A walk along segments from one point to another. Each segment begins where the one before it
ends. -/
inductive Walk : Vec2 P → List (Segment P) → Vec2 P → Prop where
  | stay (point : Vec2 P) : Walk point [] point
  | step (segment : Segment P) {rest : List (Segment P)} {finish : Vec2 P}
      (onward : Walk segment.finish rest finish) : Walk segment.start (segment :: rest) finish

namespace Walk

variable {start middle finish : Vec2 P} {segments front back : List (Segment P)}

/-- Walks that meet make one walk. -/
theorem append (first : Walk start front middle) (second : Walk middle back finish) :
    Walk start (front ++ back) finish := by
  induction first with
  | stay point => exact second
  | step segment _ inductionHypothesis => exact .step segment (inductionHypothesis second)

/-- A segment is a walk by itself. -/
theorem single (segment : Segment P) : Walk segment.start [segment] segment.finish :=
  .step segment (.stay segment.finish)

/-- The way back goes along the flipped segments in reverse. -/
theorem backward (walk : Walk start segments finish) :
    Walk finish (segments.map Segment.flip).reverse start := by
  induction walk with
  | stay point => exact .stay point
  | step segment _ inductionHypothesis =>
    have last := single segment.flip
    rw [Segment.flip_start, Segment.flip_finish] at last
    rw [List.map_cons, List.reverse_cons]
    exact inductionHypothesis.append last

end Walk

/-- The way back from the way back is the way itself. -/
theorem flipped_twice (segments : List (Segment P)) :
    ((segments.map Segment.flip).reverse.map Segment.flip).reverse = segments := by
  rw [List.map_reverse, List.reverse_reverse, List.map_map]
  exact (List.map_congr_left fun segment _ => segment.flip_flip).trans (List.map_id segments)

namespace PathElement

/-- Whether an instruction draws something from where the path is to its own point. -/
def draws : PathElement P → Bool
  | line _ | quad _ _ | cubic _ _ _ => true
  | move _ | close => false

/-- The point that an instruction leads to. A close has none of its own. -/
def point? : PathElement P → Option (Vec2 P)
  | move p | line p | quad _ p | cubic _ _ p => some p
  | close => none

/-- Whether all coordinates of an instruction are numbers. -/
def isNumber [Scalar P] : PathElement P → Bool
  | move p | line p => p.isNumber
  | quad c p => c.isNumber && p.isNumber
  | cubic c c' p => c.isNumber && c'.isNumber && p.isNumber
  | close => true

end PathElement

namespace Path

/-- A subpath: a move, then lines and curves, and at most one close, at the end. -/
inductive Proper : Path P → Prop where
  | mk (origin : Vec2 P) (drawn : List (PathElement P)) (closed : Bool)
      (draw : ∀ element ∈ drawn, element.draws = true) :
      Proper (.move origin :: drawn ++ if closed then [.close] else [])

/-- The subpath that makes a walk from a point, and is closed or left open. -/
def outline (origin : Vec2 P) (segments : List (Segment P)) (closed : Bool) : Path P :=
  .move origin :: segments.map Segment.element ++ if closed then [.close] else []

/-- An outline through segments is in its proper form. -/
theorem outline_proper (origin : Vec2 P) (segments : List (Segment P)) (closed : Bool) :
    Proper (outline origin segments closed) := by
  refine .mk origin _ closed fun element member => ?_
  obtain ⟨segment, -, rfl⟩ := List.mem_map.mp member
  cases segment <;> rfl

/-- What draws from a point makes a walk from there. -/
theorem drawn_walk (drawn : List (PathElement P)) (draw : ∀ element ∈ drawn, element.draws = true)
    (start : Vec2 P) :
    ∃ segments finish, drawn = segments.map Segment.element ∧ Walk start segments finish := by
  induction drawn generalizing start with
  | nil => exact ⟨[], start, rfl, .stay start⟩
  | cons element rest inductionHypothesis =>
    obtain ⟨first, behind⟩ := List.forall_mem_cons.mp draw
    obtain ⟨segment, begins, isElement⟩ :
        ∃ segment : Segment P, segment.start = start ∧ segment.element = element := by
      cases element with
      | line p => exact ⟨.line start p, rfl, rfl⟩
      | quad c p => exact ⟨.quad start c p, rfl, rfl⟩
      | cubic c c' p => exact ⟨.cubic start c c' p, rfl, rfl⟩
      | move | close => cases first
    obtain ⟨segments, finish, rfl, walk⟩ := inductionHypothesis behind segment.finish
    subst begins isElement
    exact ⟨segment :: segments, finish, rfl, .step segment walk⟩

/-- Every subpath makes a walk. -/
theorem Proper.walk {path : Path P} (proper : Proper path) :
    ∃ origin segments finish closed,
      path = outline origin segments closed ∧ Walk origin segments finish := by
  obtain ⟨origin, drawn, closed, draw⟩ := proper
  obtain ⟨segments, finish, rfl, walk⟩ := drawn_walk drawn draw origin
  exact ⟨origin, segments, finish, closed, rfl, walk⟩

/-- A path in its proper form has one subpath. -/
theorem Proper.single {path : Path P} (proper : Proper path) : Single path := by
  obtain ⟨origin, segments, -, closed, rfl, -⟩ := proper.walk
  refine .subpath origin _ fun point => ?_
  cases closed <;> simp [segments_no_move]

/-- A path in its proper form is not empty. -/
theorem Proper.outlined {path : Path P} (proper : Proper path) : path ≠ [] := by
  obtain ⟨origin, drawn, closed, -⟩ := proper
  nofun

/-- A path cut in front of its moves is put together again. -/
theorem subpaths_flatten (path : Path P) : path.subpaths.flatten = path := by
  induction path with
  | nil => rfl
  | cons element rest inductionHypothesis =>
    rw [subpaths]
    cases parts : subpaths rest with
    | nil =>
      rw [parts, List.flatten_nil] at inductionHypothesis
      rw [← inductionHypothesis]
      rfl
    | cons next others =>
      rw [parts] at inductionHypothesis
      rw [← inductionHypothesis]
      cases starts : startsWithMove next <;> simp [starts]

/-- Subpaths that are put together are cut apart again. -/
theorem flatten_subpaths (parts : List (Path P)) (proper : ∀ part ∈ parts, Proper part) :
    subpaths parts.flatten = parts := by
  induction parts with
  | nil => rfl
  | cons part rest inductionHypothesis =>
    obtain ⟨first, behind⟩ := List.forall_mem_cons.mp proper
    have alone := first.single.subpaths first.outlined
    rw [List.flatten_cons]
    cases rest with
    | nil => rw [List.flatten_nil, List.append_nil, alone]
    | cons next others =>
      have second := behind next List.mem_cons_self
      have starts : startsWithMove (next :: others).flatten = true := by
        obtain ⟨origin, drawn, closed, -⟩ := second
        rfl
      rw [subpaths_append part _ starts, alone, inductionHypothesis behind]
      rfl

variable [Scalar P]

/-! ## The whole walk -/

section Whole

/-- Whether a closed subpath has to be traced back to its start from where it ends. -/
def mustReturn (origin finish : Vec2 P) (closed : Bool) : Bool := closed && !(finish == origin)

/-- All that is traversed of a subpath: a closed one is traced back to its start. -/
def whole (origin : Vec2 P) (segments : List (Segment P)) (finish : Vec2 P) (closed : Bool) :
    List (Segment P) :=
  if mustReturn origin finish closed then segments ++ [.line finish origin] else segments

/-- Where a subpath is when all of it has been traversed. -/
def ending (origin finish : Vec2 P) (closed : Bool) : Vec2 P :=
  if mustReturn origin finish closed then origin else finish

variable {origin start finish : Vec2 P} {segments : List (Segment P)} {closed : Bool}

/-- With the edge that closes it a walk ends where a closed path ends. -/
theorem walk_whole (walk : Walk origin segments finish) :
    Walk origin (whole origin segments finish closed) (ending origin finish closed) := by
  unfold whole ending
  split
  · exact walk.append (.single (.line finish origin))
  · exact walk

variable (segments) in
/-- Nothing is added to a subpath that is back at its start, or is left open. -/
theorem whole_returned (returned : mustReturn origin finish closed = false) :
    whole origin segments finish closed = segments ∧ ending origin finish closed = finish := by
  simp only [whole, ending, returned, Bool.false_eq_true, ↓reduceIte, and_self]

/-- A walk is traced segment by segment. -/
theorem trace_walk (walk : Walk start segments finish) (origin : Vec2 P) (number : Nat)
    (rest : Path P) :
    (traceFrom origin start true number (segments.map Segment.element ++ rest)).map Prod.snd =
      segments ++ (traceFrom origin finish true number rest).map Prod.snd := by
  induction walk with
  | stay point => rfl
  | step segment _ inductionHypothesis =>
    cases segment <;> exact congrArg (_ :: ·) inductionHypothesis

/-- Backwards, the flipped segments of a walk come in front of those before them. -/
theorem backward_walk (walk : Walk start segments finish) (origin : Vec2 P)
    (flipped : List (Segment P)) (rest : Path P) :
    backward origin start flipped (segments.map Segment.element ++ rest) =
      backward origin finish ((segments.map Segment.flip).reverse ++ flipped) rest := by
  induction walk generalizing flipped with
  | stay point => rfl
  | step segment _ inductionHypothesis =>
    have behind := inductionHypothesis (segment.flip :: flipped)
    rw [List.map_cons, List.map_cons, List.reverse_cons, List.append_assoc, List.singleton_append,
      ← behind]
    cases segment <;> rfl

/-- The segments of a path in the order of traversal. -/
def traversed (path : Path P) : List (Segment P) := path.trace.map Prod.snd

/-- The whole walk of a subpath is what is traversed of it. -/
theorem traversed_outline (walk : Walk origin segments finish) :
    traversed (outline origin segments closed) = whole origin segments finish closed := by
  have traced := trace_walk walk origin 0 (if closed then [.close] else [])
  refine traced.trans ?_
  cases closed with
  | false => exact List.append_nil segments
  | true =>
    simp only [whole, mustReturn, traceFrom, Bool.true_and, ↓reduceIte]
    cases finish == origin with
    | true => exact List.append_nil segments
    | false => rfl

/-- Backwards, a subpath makes its whole walk in reverse. -/
theorem reverse_outline (walk : Walk origin segments finish) :
    reverseSubpath (outline origin segments closed) =
      outline (ending origin finish closed)
        ((whole origin segments finish closed).map Segment.flip).reverse closed := by
  have noClose : (segments.map Segment.element).any isClose = false := by
    rw [List.any_map, List.any_eq_false]
    intro segment _
    cases segment <;> exact Bool.false_ne_true
  have made := backward_walk walk origin [] (if closed then [.close] else [])
  simp only [outline, List.cons_append, reverseSubpath, made, List.any_append, noClose,
    List.append_nil]
  cases closed with
  | false => rfl
  | true =>
    simp only [whole, ending, mustReturn, backward, Bool.true_and, ↓reduceIte]
    cases finish == origin with
    | true => rfl
    | false => simp [isClose]

variable [Scalar.Symmetric P]

variable (finish closed) in
/-- A whole walk is back at its start if it has to be, and the walk back is as well. -/
theorem ending_returned (number : (origin == origin) = true) :
    mustReturn origin (ending origin finish closed) closed = false ∧
      mustReturn (ending origin finish closed) origin closed = false := by
  have back : mustReturn origin (ending origin finish closed) closed = false := by
    unfold ending
    split
    case isTrue => simp [mustReturn, number]
    case isFalse returned => exact Bool.eq_false_iff.mpr returned
  refine ⟨back, ?_⟩
  rwa [mustReturn, Vec2.same_swapped]

/-- Turned round twice, a subpath is the one that makes its whole walk. -/
theorem reverse_outline_twice (walk : Walk origin segments finish)
    (number : (origin == origin) = true) :
    reverseSubpath (reverseSubpath (outline origin segments closed)) =
      outline origin (whole origin segments finish closed) closed := by
  have returned := ending_returned finish closed number
  obtain ⟨same, arrives⟩ := whole_returned _ returned.2
  rw [reverse_outline walk, reverse_outline (walk_whole walk).backward, same, arrives, flipped_twice]

/-- Backwards, it makes no difference whether the way back to the start has been drawn. -/
theorem reverse_outline_whole (walk : Walk origin segments finish)
    (number : (origin == origin) = true) :
    reverseSubpath (outline origin (whole origin segments finish closed) closed) =
      reverseSubpath (outline origin segments closed) := by
  have returned := ending_returned finish closed number
  obtain ⟨same, arrives⟩ := whole_returned _ returned.1
  rw [reverse_outline (walk_whole walk), same, arrives, reverse_outline walk]

end Whole

/-! ## Subpaths -/

/-- The points that the instructions of a path lead to. -/
def points (path : Path P) : List (Vec2 P) := path.filterMap PathElement.point?

/-- A subpath has a closing edge if it is closed and its last point is not its first. The edge is
traversed, but not drawn by an instruction of its own. -/
def HasClosingEdge (path : Path P) : Prop :=
  path.getLast? = some .close ∧ ∃ first last, path.points.head? = some first ∧
    path.points.getLast? = some last ∧ (last == first) = false

section Subpath

variable {origin finish : Vec2 P} {segments : List (Segment P)} {closed : Bool}

omit [Scalar P] in
/-- An outline ends with a close exactly if it is closed. -/
theorem outline_closed : (outline origin segments closed).getLast? = some .close ↔
    closed = true := by
  cases closed with
  | true =>
    refine iff_of_true ?_ rfl
    exact List.getLast?_concat (l := .move origin :: segments.map Segment.element)
  | false =>
    refine iff_of_false (fun last => ?_) Bool.false_ne_true
    have member := List.mem_of_getLast? last
    simp only [outline, Bool.false_eq_true, ↓reduceIte, List.append_nil, List.mem_cons,
      List.mem_map, reduceCtorEq, false_or] at member
    obtain ⟨segment, -, same⟩ := member
    cases segment <;> cases same

omit [Scalar P] in
/-- The points of a walk are where it starts and where its segments end. -/
theorem points_outline :
    points (outline origin segments closed) = origin :: segments.map Segment.finish := by
  have drawn : (segments.map Segment.element).filterMap PathElement.point? =
      segments.map Segment.finish := by
    rw [List.filterMap_map, ← List.filterMap_eq_map]
    refine List.filterMap_congr fun segment _ => ?_
    cases segment <;> rfl
  have first : (PathElement.move origin).point? = some origin := rfl
  rw [points, outline, List.cons_append, List.filterMap_cons_some first, List.filterMap_append,
    drawn]
  cases closed <;> simp [PathElement.point?]

omit [Scalar P] in
/-- The last of them is where the walk ends. -/
theorem last_walk (walk : Walk origin segments finish) :
    (origin :: segments.map Segment.finish).getLast? = some finish := by
  induction walk with
  | stay point => rfl
  | step segment _ inductionHypothesis =>
    rwa [List.map_cons, List.getLast?_cons_cons]

/-- An outline has an edge that closes it exactly if it is closed and does not return by itself. -/
theorem closing_edge_outline (walk : Walk origin segments finish) :
    HasClosingEdge (outline origin segments closed) ↔ mustReturn origin finish closed = true := by
  simp only [HasClosingEdge, outline_closed, points_outline, List.head?_cons, last_walk walk,
    Option.some.injEq, mustReturn, Bool.and_eq_true, Bool.not_eq_true']
  refine and_congr_right fun _ => ⟨?_, fun apart => ⟨origin, finish, rfl, rfl, apart⟩⟩
  rintro ⟨_, _, rfl, rfl, apart⟩
  exact apart

end Subpath

/-- A subpath backwards is a subpath. -/
theorem Proper.reversed {part : Path P} (proper : Proper part) : Proper (reverseSubpath part) := by
  obtain ⟨origin, segments, finish, closed, rfl, walk⟩ := proper.walk
  rw [reverse_outline walk]
  exact outline_proper ..

section Turned

variable [Scalar.Symmetric P] {part : Path P} (proper : Proper part)
  (numbers : ∀ element ∈ part, element.isNumber = true)

omit [Scalar.Symmetric P] in
include numbers in
/-- The start of a subpath is the same as itself. -/
theorem start_number {origin : Vec2 P} {segments : List (Segment P)} {closed : Bool}
    (made : part = outline origin segments closed) : (origin == origin) = true := by
  refine Vec2.same_self (numbers (.move origin) ?_)
  rw [made]
  exact List.mem_cons_self

include proper numbers

/-- A subpath backwards is traversed in reverse, and is closed if the other is. -/
theorem Proper.backward :
    traversed (reverseSubpath part) = ((traversed part).map Segment.flip).reverse ∧
      ((reverseSubpath part).getLast? = some .close ↔ part.getLast? = some .close) := by
  obtain ⟨origin, segments, finish, closed, made, walk⟩ := proper.walk
  have returned := ending_returned finish closed (start_number numbers made)
  rw [made, reverse_outline walk]
  refine ⟨?_, outline_closed.trans outline_closed.symm⟩
  rw [traversed_outline (walk_whole walk).backward, (whole_returned _ returned.2).1,
    traversed_outline walk]

/-- Turned round three times, it is the one that is turned round once. -/
theorem Proper.reverse_thrice :
    reverseSubpath (reverseSubpath (reverseSubpath part)) = reverseSubpath part := by
  obtain ⟨origin, segments, finish, closed, made, walk⟩ := proper.walk
  have number := start_number numbers made
  rw [made, reverse_outline_twice walk number, reverse_outline_whole walk number]

/-- Turned round twice, it is itself if there is no closing edge to be drawn. -/
theorem Proper.reverse_twice (noEdge : ¬ HasClosingEdge part) :
    reverseSubpath (reverseSubpath part) = part := by
  obtain ⟨origin, segments, finish, closed, made, walk⟩ := proper.walk
  rw [made, closing_edge_outline walk, Bool.not_eq_true] at noEdge
  rw [made, reverse_outline_twice walk (start_number numbers made), (whole_returned _ noEdge).1]

end Turned

/-! ## Paths -/

/-- One subpath is turned round alone. -/
theorem Proper.reverse {path : Path P} (proper : Proper path) :
    path.reverse = reverseSubpath path := by
  rw [Path.reverse, proper.single.subpaths proper.outlined, List.flatMap_singleton]

/-- Turning a path round turns each of its subpaths round, as often as one likes. -/
theorem reverse_parts (parts : List (Path P)) (proper : ∀ part ∈ parts, Proper part) :
    reverse parts.flatten = (parts.map reverseSubpath).flatten := by
  rw [reverse, flatten_subpaths parts proper, List.flatMap_def]

/-- A path backwards has as many subpaths, in the same order. Each is traversed in reverse with every
segment flipped, the closing edge included, and is closed if the other is. So a path that is turned
round three times is the path turned round once, and one that is turned round twice is the path
itself if none of its subpaths has a closing edge. -/
theorem reversed_traversal [Scalar.Symmetric P] (path : Path P)
    (proper : ∀ part ∈ path.subpaths, Proper part)
    (numbers : ∀ element ∈ path, element.isNumber = true) :
    List.Forall₂ (fun part back => Proper back ∧
        back.traversed = (part.traversed.map Segment.flip).reverse ∧
        (back.getLast? = some .close ↔ part.getLast? = some .close))
      path.subpaths path.reverse.subpaths ∧
    path.reverse.reverse.reverse = path.reverse ∧
    ((∀ part ∈ path.subpaths, ¬ HasClosingEdge part) → path.reverse.reverse = path) := by
  have among : ∀ part ∈ path.subpaths, ∀ element ∈ part, element.isNumber = true := by
    intro part isPart element member
    refine numbers element ?_
    rw [← subpaths_flatten path]
    exact List.mem_flatten_of_mem isPart member
  have back : ∀ part ∈ path.subpaths.map reverseSubpath, Proper part :=
    List.forall_mem_map.mpr fun part isPart => (proper part isPart).reversed
  have forth : ∀ part ∈ (path.subpaths.map reverseSubpath).map reverseSubpath, Proper part :=
    List.forall_mem_map.mpr fun part isPart => (back part isPart).reversed
  have once : path.reverse = (path.subpaths.map reverseSubpath).flatten := by
    rw [← reverse_parts _ proper, subpaths_flatten]
  refine ⟨?_, ?_, fun noEdge => ?_⟩
  · rw [once, flatten_subpaths _ back, List.forall₂_map_right_iff]
    refine List.forall₂_same.mpr fun part isPart => ⟨(proper part isPart).reversed, ?_⟩
    exact (proper part isPart).backward (among part isPart)
  · rw [once, reverse_parts _ back, reverse_parts _ forth, List.map_map, List.map_map]
    refine congrArg List.flatten (List.map_congr_left fun part isPart => ?_)
    exact (proper part isPart).reverse_thrice (among part isPart)
  · rw [once, reverse_parts _ back, List.map_map]
    refine (congrArg List.flatten ?_).trans (subpaths_flatten path)
    refine (List.map_congr_left fun part isPart => ?_).trans (List.map_id _)
    exact (proper part isPart).reverse_twice (among part isPart) (noEdge part isPart)

/-- A triangle that is drawn back to its corner and closed, and behind it a curve left open. -/
def triangleAndCurve : Path Float :=
  [.move ⟨0, 0⟩, .line ⟨4, 0⟩, .quad ⟨4, 2⟩ ⟨2, 4⟩, .line ⟨0, 0⟩, .close,
    .move ⟨5, 5⟩, .cubic ⟨6, 5⟩ ⟨7, 6⟩ ⟨7, 7⟩]

/-- Backwards, the triangle still comes first, and then the curve. -/
theorem triangle_and_curve_reversed :
    (∀ part ∈ triangleAndCurve.subpaths, Proper part) ∧
    (∀ element ∈ triangleAndCurve, element.isNumber = true) ∧
    (∀ part ∈ triangleAndCurve.subpaths, ¬ HasClosingEdge part) ∧
    List.Forall₂ (fun part back => Proper back ∧
        back.traversed = (part.traversed.map Segment.flip).reverse ∧
        (back.getLast? = some .close ↔ part.getLast? = some .close))
      triangleAndCurve.subpaths triangleAndCurve.reverse.subpaths ∧
    triangleAndCurve.reverse.reverse.reverse = triangleAndCurve.reverse ∧
    triangleAndCurve.reverse.reverse = triangleAndCurve ∧
    triangleAndCurve.reverse == [.move ⟨0, 0⟩, .line ⟨2, 4⟩, .quad ⟨4, 2⟩ ⟨4, 0⟩, .line ⟨0, 0⟩,
      .close, .move ⟨7, 7⟩, .cubic ⟨7, 6⟩ ⟨6, 5⟩ ⟨5, 5⟩] := by
  have proper : ∀ part ∈ triangleAndCurve.subpaths, Proper part := by
    refine List.forall_mem_cons.mpr ⟨?_, List.forall_mem_singleton.mpr ?_⟩
    · exact .mk ⟨0, 0⟩ [.line ⟨4, 0⟩, .quad ⟨4, 2⟩ ⟨2, 4⟩, .line ⟨0, 0⟩] true (by decide)
    · exact .mk ⟨5, 5⟩ [.cubic ⟨6, 5⟩ ⟨7, 6⟩ ⟨7, 7⟩] false (by decide)
  have numbers : ∀ element ∈ triangleAndCurve, element.isNumber = true := by decide +kernel
  have noEdge : ∀ part ∈ triangleAndCurve.subpaths, ¬ HasClosingEdge part := by
    refine List.forall_mem_cons.mpr ⟨?_, List.forall_mem_singleton.mpr ?_⟩
    · rintro ⟨-, first, last, isFirst, isLast, apart⟩
      cases isFirst
      cases isLast
      exact absurd apart (by decide +kernel)
    · rintro ⟨closed, -⟩
      cases closed
  obtain ⟨traversal, thrice, twice⟩ := reversed_traversal triangleAndCurve proper numbers
  exact ⟨proper, numbers, noEdge, traversal, thrice, twice noEdge, by decide +kernel⟩

end Path

end VectorMotion
