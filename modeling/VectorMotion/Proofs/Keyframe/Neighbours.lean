import VectorMotion.Proofs.Keyframe.Timeline

/-!
# The keyframes next to a time

Keyframes that all give their values, each at a later time than the one before. Between two of them
that are neighbours, the value of a track is that of the span between the two, and this span is made
of the two keyframes alone. Of all the others a track keeps one thing: whether any span bends. If
one does, points follow their tangents on every span, and where there are none they still go straight,
but no longer in proportion to the eased time.
-/

namespace VectorMotion

open Document

variable {S V W : Type} [Scalar S]

/-- Keyframes that all give their values, one after the other. -/
structure Document.Keyframe.Successive (keys : List (Keyframe S W)) : Prop where
  given : ∀ key ∈ keys, key.start.isSome = true
  later : keys.IsChain fun key next => key.time < next.time

namespace Track

/-- Between neighbours the value is that of the span from one to the other. -/
theorem value_between [Scalar.Successive S] [Blend S V] {time : S} (convert : W → V) (default : V) (before after : List (Keyframe S W))
    {key next : Keyframe S W} {start : V} (given : key.start.map convert = some start)
    (later : (before ++ key :: next :: after).IsChain fun key next => key.time < next.time)
    (come : key.time ≤ time) (notCome : time < next.time) :
    (ofKeyframes convert default (before ++ key :: next :: after)).valueAt time =
      (Span.between convert key next start).valueAt
        (ofKeyframes convert default (before ++ key :: next :: after)).curved time := by
  have found : (before ++ key :: next :: after)[before.length]? = some key := by simp
  have following : (before ++ key :: next :: after)[before.length + 1]? = some next := by simp
  have span := spans_keys convert default (before ++ key :: next :: after) before.length
  rw [found, following, begun_given convert default found given] at span
  exact value_in_span convert default later (.between found following come notCome) span

end Track

namespace Exact

/-- The exact point of a curve without tangents is on the straight line, but it is slow at both
ends. -/
theorem straight_point (a b : Vec2 ℝ) (t : ℝ) : Blend.pointAlong a b t Vec2.zero Vec2.zero =
    ⟨a.x + (b.x - a.x) * (3 * t ^ 2 - 2 * t ^ 3), a.y + (b.y - a.y) * (3 * t ^ 2 - 2 * t ^ 3)⟩ := by
  simp only [Blend.pointAlong, Vec2.scale, Vec2.zero, vector_sum, numeral]
  ext <;> push_cast <;> ring

/-- The exact value of a span that goes straight, within the span. -/
theorem straight_value (span : Span ℝ (Vec2 ℝ)) (moves : span.hold = false)
    (straightOut : span.tangentOut = Vec2.zero) (straightIn : span.tangentIn = Vec2.zero)
    {time : ℝ} (come : span.startTime ≤ time) (notCome : time < span.endTime) (curved : Bool) :
    let eased := Easing.ease span.easeOut span.easeIn
      ((time - span.startTime) / (span.endTime - span.startTime))
    let way := if curved then 3 * eased ^ 2 - 2 * eased ^ 3 else eased
    span.valueAt curved time =
      ⟨span.start.x + (span.finish.x - span.start.x) * way,
        span.start.y + (span.finish.y - span.start.y) * way⟩ := by
  intro eased way
  rw [span_value span come notCome, moves, if_neg Bool.false_ne_true, straightOut, straightIn]
  cases curved with
  | false => rfl
  | true => exact straight_point _ _ _

end Exact

namespace Track

/-- Between two neighbours, nothing but the two decides on the value, apart from whether points
follow tangents at all. A point that has no tangents there goes straight, in proportion to the eased
time or, if the track bends elsewhere, slowly at both ends. -/
theorem value_from_neighbours :
    (∀ (S V W : Type) [Scalar S] [Scalar.Successive S] [Blend S V] (convert : W → V)
        (default default' : V) (keys others : List (Keyframe S W)) (key next : Keyframe S W)
        (time : S), Keyframe.Successive keys → Keyframe.Successive others →
      [key, next] <:+: keys → [key, next] <:+: others →
      (ofKeyframes convert default keys).curved = (ofKeyframes convert default' others).curved →
      key.time ≤ time → time < next.time →
      (ofKeyframes convert default keys).valueAt time =
        (ofKeyframes convert default' others).valueAt time) ∧
    ∀ (W : Type) (convert : W → Vec2 ℝ) (default : Vec2 ℝ) (keys : List (Keyframe ℝ W))
        (key next : Keyframe ℝ W) (start finish : Vec2 ℝ) (time : ℝ), Keyframe.Successive keys →
      [key, next] <:+: keys → key.start.map convert = some start →
      (key.finish.or next.start).map convert = some finish → key.hold = false →
      Span.tangent key.tangentOut = Vec2.zero → Span.tangent key.tangentIn = Vec2.zero →
      key.time ≤ time → time < next.time →
      let track := ofKeyframes convert default keys
      let eased := Easing.ease (Span.control key.easeOut Vec2.zero)
        (Span.control key.easeIn (Vec2.both 1)) ((time - key.time) / (next.time - key.time))
      let way := if track.curved then 3 * eased ^ 2 - 2 * eased ^ 3 else eased
      track.valueAt time =
        ⟨start.x + (finish.x - start.x) * way, start.y + (finish.y - start.y) * way⟩ := by
  constructor
  · rintro S V W _ _ _ convert default default' keys others key next time successive
      othersSuccessive ⟨before, after, rfl⟩ ⟨before', after', rfl⟩ curved come notCome
    simp only [List.append_assoc, List.cons_append, List.nil_append] at *
    obtain ⟨value, given⟩ := Option.isSome_iff_exists.mp (successive.given key (by simp))
    have start : key.start.map convert = some (convert value) := by rw [given, Option.map_some]
    rw [value_between convert default before after start successive.later come notCome,
      value_between convert default' before' after' start othersSuccessive.later come notCome,
      curved]
  · rintro W convert default keys key next start finish time successive ⟨before, after, rfl⟩ given
      reached moves straightOut straightIn come notCome
    simp only [List.append_assoc, List.cons_append, List.nil_append] at *
    rw [value_between convert default before after given successive.later come notCome,
      Exact.straight_value _ moves straightOut straightIn come notCome]
    simp only [Span.between, reached, Option.getD_some, Exact.numeral_one]

/-- A point on a rail, a hundred units farther every ten frames, that may leave the rail between
the last two of its keyframes. -/
noncomputable def rail (tangent : Option (List ℝ)) : List (Keyframe ℝ (Triple ℝ)) :=
  [ { time := 0, start := some ⟨0, 0, 0⟩ }, { time := 10, start := some ⟨100, 0, 0⟩ },
    { time := 20, start := some ⟨200, 0, 0⟩, tangentOut := tangent },
    { time := 30, start := some ⟨300, 0, 0⟩ } ]

/-- The keyframes of the rail follow each other in time. -/
theorem rail_successive (tangent : Option (List ℝ)) : Keyframe.Successive (rail tangent) where
  given := by simp [rail]
  later := by norm_num [rail]

/-- The rail counts as curved exactly if its tangent is not zero. -/
theorem rail_curved (tangent : Option (List ℝ)) :
    (ofKeyframes Triple.plane Vec2.zero (rail tangent)).curved =
      !(Span.tangent tangent == Vec2.zero) := by
  have straight : (Vec2.zero == (Vec2.zero : Vec2 ℝ)) = true := by
    simp [BEq.beq, instBEqVec2.beq]
  simp [ofKeyframes, rail, spansFrom, Span.bends, Span.still, Span.tangent, straight]

/-- Without a tangent the rail is straight. -/
theorem rail_straight : (ofKeyframes Triple.plane Vec2.zero (rail none)).curved = false := by
  rw [rail_curved]
  simp [Span.tangent, BEq.beq, instBEqVec2.beq]

/-- With a tangent to the side the rail is curved. -/
theorem rail_bent {y : ℝ} (aside : y ≠ 0) :
    (ofKeyframes Triple.plane Vec2.zero (rail (some [0, y]))).curved = true := by
  rw [rail_curved]
  simp [Span.tangent, BEq.beq, instBEqVec2.beq, Vec2.zero, Exact.numeral_zero, aside]

/-- Two points that leave the rail farther on, one to each side, are still at the same place. -/
theorem value_from_neighbours_rail :
    (ofKeyframes Triple.plane Vec2.zero (rail (some [0, 50]))).valueAt (5 / 2) =
        (ofKeyframes Triple.plane Vec2.zero (rail (some [0, -50]))).valueAt (5 / 2) ∧
      (ofKeyframes Triple.plane Vec2.zero (rail (some [0, 50]))).valueAt (5 / 2) =
        ⟨125 / 8, 0⟩ := by
  have neighbours (tangent : Option (List ℝ)) :
      [{ time := 0, start := some ⟨0, 0, 0⟩ }, { time := 10, start := some ⟨100, 0, 0⟩ }] <:+:
        rail tangent := ⟨[], _, rfl⟩
  have bent : (ofKeyframes Triple.plane Vec2.zero (rail (some [0, 50]))).curved = true :=
    rail_bent (by norm_num)
  have bentBack : (ofKeyframes Triple.plane Vec2.zero (rail (some [0, -50]))).curved = true :=
    rail_bent (by norm_num)
  constructor
  · exact value_from_neighbours.1 _ _ _ _ _ _ _ _ _ _ _ (rail_successive _) (rail_successive _)
      (neighbours _) (neighbours _) (bent.trans bentBack.symm) (by norm_num) (by norm_num)
  · have value := value_from_neighbours.2 _ Triple.plane Vec2.zero _ _ _ ⟨0, 0⟩ ⟨100, 0⟩ (5 / 2)
      (rail_successive (some [0, 50])) (neighbours _) rfl rfl rfl rfl rfl (by norm_num)
      (by norm_num)
    rw [value, bent]
    simp only [Span.control]
    rw [Exact.uneased (by norm_num) (by norm_num)]
    norm_num

/-- The place between the first two keyframes, where all points are on the rail. -/
theorem rail_value (tangent : Option (List ℝ)) :
    (ofKeyframes Triple.plane Vec2.zero (rail tangent)).valueAt (5 / 2) =
      ⟨if (ofKeyframes Triple.plane Vec2.zero (rail tangent)).curved then 125 / 8 else 25, 0⟩ := by
  have begun : (0 : ℝ) ≤ 5 / 2 := by norm_num
  have notOver : (5 / 2 : ℝ) < 10 := by norm_num
  have between := value_between Triple.plane Vec2.zero [] _ rfl (rail_successive tangent).later
    begun notOver
  rw [List.nil_append] at between
  rw [rail, between, Exact.straight_value _ rfl rfl rfl begun notOver]
  simp only [Span.between, Span.control, Exact.numeral_one]
  rw [Exact.uneased (by norm_num) (by norm_num)]
  split <;> norm_num [Triple.plane]

/-- How fast a point moves on a straight span depends on whether the track bends elsewhere. -/
theorem far_tangent_slows :
    Keyframe.Successive (rail none) ∧ Keyframe.Successive (rail (some [0, 50])) ∧
      (rail none).take 2 = (rail (some [0, 50])).take 2 ∧
      (ofKeyframes Triple.plane Vec2.zero (rail none)).valueAt (5 / 2) = ⟨25, 0⟩ ∧
      (ofKeyframes Triple.plane Vec2.zero (rail (some [0, 50]))).valueAt (5 / 2) =
        ⟨125 / 8, 0⟩ := by
  refine ⟨rail_successive _, rail_successive _, rfl, ?_, ?_⟩
  · rw [rail_value, rail_straight, if_neg Bool.false_ne_true]
  · rw [rail_value, rail_bent (by norm_num), if_pos rfl]

end Track

end VectorMotion
