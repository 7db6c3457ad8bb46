import VectorMotion.Proofs.Geometry.Backward

/-!
# The direction of free-form shapes

A free-form shape turned round is again a free-form shape. It has the vertices of the other in
reverse, where a closed shape still begins at its first vertex, and at each vertex the tangents have
changed places: where the curve left, it arrives now. Turning the path of a shape round gives the
path of the shape turned round, instruction by instruction, and nothing is computed anew for it.

The path of a shape is known by the knots that it runs through, of which a closed one repeats the
first at the end. Between two knots lies a leg, and the leg between the same knots turned, taken in
the other order, is the leg flipped.
-/

namespace VectorMotion

variable {S P : Type} [Scalar S]

namespace Document.Vertices

/-- Tangents for as many vertices. Those that are left out are zero. -/
def fitted (count : Nat) (tangents : List (Vec2 S)) : List (Vec2 S) :=
  (tangents ++ List.replicate count Vec2.zero).take count

/-- What stands at the vertices, in the order in which they come on the way back. A closed shape
begins with its first vertex either way. -/
def turned {α : Type} (closed : Bool) (entries : List α) : List α :=
  match closed, entries with
  | true, first :: rest => first :: rest.reverse
  | _, entries => entries.reverse

/-- The shape turned round. -/
def backward (shape : Vertices S) : Vertices S :=
  let count := shape.points.length
  { closed := shape.closed
    arriving := turned shape.closed (fitted count shape.leaving)
    leaving := turned shape.closed (fitted count shape.arriving)
    points := turned shape.closed shape.points }

/-- A list of tangents is fitted to a number of vertices from the first of them on. -/
theorem fitted_succ (count : Nat) (tangents : List (Vec2 S)) :
    fitted (count + 1) tangents = tangents.headD Vec2.zero :: fitted count tangents.tail := by
  cases tangents with
  | nil => simp [fitted, List.replicate_succ]
  | cons first rest =>
    have enough : (List.replicate (count + 1) (Vec2.zero : Vec2 S)) =
        List.replicate count Vec2.zero ++ [Vec2.zero] := List.replicate_succ'
    rw [fitted, fitted, List.cons_append, List.take_succ_cons, enough, ← List.append_assoc,
      List.take_append_of_le_length (by simp)]
    rfl

omit [Scalar S] in
/-- Turning a list round goes together with changing its entries. -/
theorem turned_map {α β : Type} (closed : Bool) (change : α → β) (entries : List α) :
    turned closed (entries.map change) = (turned closed entries).map change := by
  cases closed with
  | false => exact List.map_reverse.symm
  | true =>
    cases entries with
    | nil => rfl
    | cons first rest => simp [turned]

end Document.Vertices

namespace Path

open Document.Vertices

/-! ## Knots -/

/-- A knot whose tangents have changed places. -/
def Knot.turn (knot : Knot S) : Knot S := ⟨knot.point, knot.leaving, knot.arriving⟩

/-- What stands at the vertices of a shape makes its knots. -/
theorem knots_columns (points arriving leaving : List (Vec2 S)) :
    let made := knots points arriving leaving
    made.map Knot.point = points ∧ made.map Knot.arriving = fitted points.length arriving ∧
      made.map Knot.leaving = fitted points.length leaving := by
  induction points generalizing arriving leaving with
  | nil => simp [knots, fitted]
  | cons point rest inductionHypothesis =>
    obtain ⟨same, arrives, leaves⟩ := inductionHypothesis arriving.tail leaving.tail
    simp only [knots, List.map_cons, List.length_cons, fitted_succ, same, arrives, leaves, and_self]

/-- Knots are known by what stands there. -/
theorem knots_of_columns (made : List (Knot S)) :
    knots (made.map Knot.point) (made.map Knot.arriving) (made.map Knot.leaving) = made := by
  induction made with
  | nil => rfl
  | cons first rest inductionHypothesis => exact congrArg (first :: ·) inductionHypothesis

/-- The knots of a shape turned round are its knots on the way back, turned. -/
theorem knots_backward (shape : Document.Vertices S) :
    knots shape.backward.points shape.backward.arriving shape.backward.leaving =
      (turned shape.closed (knots shape.points shape.arriving shape.leaving)).map Knot.turn := by
  obtain ⟨points, arriving, leaving⟩ := knots_columns shape.points shape.arriving shape.leaving
  set made := knots shape.points shape.arriving shape.leaving
  have back := knots_of_columns ((turned shape.closed made).map Knot.turn)
  rw [List.map_map, List.map_map, List.map_map] at back
  simp only [Document.Vertices.backward]
  rw [← leaving, ← arriving, ← points, turned_map, turned_map, turned_map]
  exact back

/-! ## Legs -/

variable [Widen S P]

/-- The curve from one knot to another. -/
def leg (a b : Knot S) : Segment P :=
  .cubic a.point.toPoint (a.point + a.leaving).toPoint (b.point + b.arriving).toPoint
    b.point.toPoint

/-- The curves through knots. -/
def legs : List (Knot S) → List (Segment P)
  | [] | [_] => []
  | a :: b :: rest => leg a b :: legs (b :: rest)

/-- The path through knots. -/
def along (made : List (Knot S)) : Path P :=
  match made.head? with
  | none => []
  | some first => outline first.point.toPoint (legs made) false

/-- Knots with the first once more at the end, to come back to it. There is no way back from one
knot alone. -/
def around (closed : Bool) (made : List (Knot S)) : List (Knot S) :=
  if closed && 1 < made.length then made ++ made.head?.toList else made

/-- The legs through knots are those up to any knot and those from there on. -/
theorem legs_split (front : List (Knot S)) (middle : Knot S) (back : List (Knot S)) :
    (legs (front ++ middle :: back) : List (Segment P)) =
      legs (front ++ [middle]) ++ legs (middle :: back) := by
  induction front with
  | nil => rfl
  | cons first rest inductionHypothesis =>
    cases rest with
    | nil => rfl
    | cons second rest => exact congrArg (leg first second :: ·) inductionHypothesis

/-- One more knot adds one more leg. -/
theorem legs_concat {made : List (Knot S)} {last : Knot S} (isLast : made.getLast? = some last)
    (next : Knot S) : (legs (made ++ [next]) : List (Segment P)) = legs made ++ [leg last next] := by
  obtain ⟨front, rfl⟩ := List.getLast?_eq_some_iff.mp isLast
  rw [List.append_assoc]
  exact legs_split front last [next]

/-- The legs between knots make a walk from the first to the last. -/
theorem legs_walk {made : List (Knot S)} {first last : Knot S} (isFirst : made.head? = some first)
    (isLast : made.getLast? = some last) :
    Walk (first.point.toPoint : Vec2 P) (legs made) last.point.toPoint := by
  induction made generalizing first with
  | nil => cases isFirst
  | cons knot rest inductionHypothesis =>
    obtain rfl := Option.some.inj isFirst
    cases rest with
    | nil =>
      obtain rfl := Option.some.inj isLast
      exact .stay _
    | cons second rest =>
      rw [List.getLast?_cons_cons] at isLast
      exact .step (leg knot second) (inductionHypothesis rfl isLast)

/-- Between turned knots, in reverse, lie the flipped legs in reverse. -/
theorem legs_turned (made : List (Knot S)) :
    (legs (made.map Knot.turn).reverse : List (Segment P)) =
      ((legs made).map Segment.flip).reverse := by
  induction made with
  | nil => rfl
  | cons first rest inductionHypothesis =>
    cases rest with
    | nil => rfl
    | cons second rest =>
      rw [List.map_cons, List.reverse_cons] at inductionHypothesis
      rw [List.map_cons, List.map_cons, List.reverse_cons, List.reverse_cons, List.append_assoc,
        List.singleton_append, legs_split, inductionHypothesis]
      exact List.reverse_cons.symm

/-- A path through knots consists of the legs between them. -/
theorem through_legs (first : Knot S) (rest : List (Knot S)) :
    (through first rest : Path P) = (legs (first :: rest)).map Segment.element := by
  induction rest generalizing first with
  | nil => rfl
  | cons second rest inductionHypothesis => exact congrArg (_ :: ·) (inductionHypothesis second)

/-- A free-form shape is drawn along its knots. -/
theorem freeForm_along (shape : Document.Vertices S) :
    (freeForm shape : Path P) =
      along (around shape.closed (knots shape.points shape.arriving shape.leaving)) := by
  unfold freeForm
  generalize knots shape.points shape.arriving shape.leaving = made
  rcases made with _ | ⟨first, rest⟩
  · cases shape.closed <;> rfl
  · cases isLast : rest.getLast? with
    | none =>
      obtain rfl := List.getLast?_eq_none_iff.mp isLast
      cases shape.closed <;> rfl
    | some last =>
      cases shape.closed with
      | false => simp [around, along, outline, through_legs, isLast]
      | true =>
        have several : 1 < (first :: rest).length :=
          Nat.succ_lt_succ (List.length_pos_of_mem (List.mem_of_getLast? isLast))
        have again : around true (first :: rest) = first :: rest ++ [first] := by
          rw [around, Bool.true_and, decide_eq_true several]
          rfl
        have whole : (first :: rest).getLast? = some last := by
          rw [List.getLast?_cons, isLast]
          rfl
        have drawn : along (first :: rest ++ [first]) =
            .move (first.point.toPoint : Vec2 P) ::
              (legs (first :: rest ++ [first])).map Segment.element ++ [] := rfl
        rw [again, drawn, legs_concat whole, List.map_append, List.append_nil, ← through_legs]
        simp only [isLast, ↓reduceIte]
        rfl

/-- What is drawn along knots, turned round, is drawn along the turned knots in reverse. -/
theorem reverse_along [Scalar P] (made : List (Knot S)) :
    (along made : Path P).reverse = along (made.map Knot.turn).reverse := by
  cases isFirst : made.head? with
  | none =>
    obtain rfl := List.head?_eq_none_iff.mp isFirst
    rfl
  | some first =>
    obtain ⟨last, isLast⟩ : ∃ last, made.getLast? = some last := by
      refine Option.isSome_iff_exists.mp (List.getLast?_isSome.mpr ?_)
      rintro rfl
      cases isFirst
    have walk := legs_walk (P := P) isFirst isLast
    have noReturn : mustReturn (first.point.toPoint : Vec2 P) last.point.toPoint false = false := rfl
    obtain ⟨same, arrives⟩ := whole_returned (legs made) noReturn
    have start : (made.map Knot.turn).reverse.head? = some last.turn := by
      rw [List.head?_reverse, List.getLast?_map, isLast]
      rfl
    simp only [along, isFirst, start]
    rw [(outline_proper ..).reverse, reverse_outline walk, same, arrives, legs_turned]
    rfl

omit [Scalar S] in
/-- On the way back the knots of a shape come around as they do on the way there, in reverse. -/
theorem around_turned (closed : Bool) (made : List (Knot S)) :
    around closed ((turned closed made).map Knot.turn) =
      ((around closed made).map Knot.turn).reverse := by
  rcases made with _ | ⟨first, _ | ⟨second, rest⟩⟩
  · cases closed <;> rfl
  · cases closed <;> rfl
  · cases closed <;> simp [around, turned]

/-- The path of a free-form shape turned round is the path of the shape turned round: with its
vertices in reverse, a closed one from its first vertex on, and the tangents of each exchanged. -/
theorem freeForm_reversed [Scalar P] (shape : Document.Vertices S) :
    (freeForm shape : Path P).reverse = freeForm shape.backward := by
  rw [freeForm_along, freeForm_along, reverse_along, knots_backward, ← around_turned]
  rfl

end Path

end VectorMotion
