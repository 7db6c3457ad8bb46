import Mathlib
import VectorMotion.Proofs.Keyframe.Reset
import VectorMotion.Proofs.Keyframe.Timeline
import VectorMotion.Scene.Shape

/-!
# The outline that is held

An outline whose keyframes say where they end is held at its last keyframe, which does not: open, and
with all its tangents zero. This is done before the outline is tracked, by giving the last keyframe the
held outline for its value. From that keyframe on the outline is then the held one, and before it
nothing should have changed.

Other keyframes look at the value of the last one, though. The keyframe in front of it leads there if it
does not say where it ends itself. Then it leads to the held outline. And if the last keyframe has no
value of its own, the outline that is held is taken from the last keyframe that says where it ends. If
that is not the keyframe in front of it, it is not the outline that the track comes to.
-/

namespace VectorMotion

open Document

variable {S V W : Type} [Scalar S]

namespace Track

section Last

/-- The spans of keyframes up to one of them do not depend on what comes behind it. -/
theorem spans_split (convert : W → V) (previous : V) (front : List (Keyframe S W))
    (key : Keyframe S W) :
    ∃ (spans : List (Span S V)) (reached : V), spans.length = front.length ∧
      ∀ rest, spansFrom convert previous (front ++ key :: rest) =
        spans ++ spansFrom convert reached (key :: rest) := by
  induction front generalizing previous with
  | nil => exact ⟨[], previous, rfl, fun _ => rfl⟩
  | cons first front inductionHypothesis =>
    -- The span of the first keyframe is made from it and the next one, which is the key or in front
    -- of it.
    cases front with
    | nil => exact ⟨[_], _, rfl, fun _ => rfl⟩
    | cons next front =>
      obtain ⟨spans, reached, length, behind⟩ := inductionHypothesis
        (Span.between convert first next ((first.start.map convert).getD previous)).finish
      refine ⟨Span.between convert first next ((first.start.map convert).getD previous) :: spans,
        reached, by simp [length], fun rest => ?_⟩
      exact congrArg (List.cons _) (behind rest)

omit [Scalar S] in
/-- What a keyframe begins with does not depend on those behind it. -/
theorem begun_front (convert : W → V) (default : V) (front rest : List (Keyframe S W)) {index : ℕ}
    (inFront : index < front.length) :
    begun convert default (front ++ rest) index = begun convert default front index := by
  induction index with
  | zero => simp [begun, List.getElem?_append_left inFront]
  | succ index inductionHypothesis =>
    have before : index < front.length := (Nat.lt_succ_self index).trans inFront
    rw [begun, begun, inductionHypothesis before, List.getElem?_append_left inFront,
      List.getElem?_append_left before]

variable (convert : W → V) (default : V) (front : List (Keyframe S W)) (key : Keyframe S W)

/-- What the keyframe behind some others begins with. -/
def begins : V := begun convert default (front ++ [key]) front.length

/-- The spans of keyframes, of which the last two are looked at: some that do not depend on the last
one, the way that leads to it, and the rest of time. -/
theorem spans_last : ∃ spans : List (Span S V), spans.length = front.length ∧
    ∀ last, spansFrom convert default (front ++ [key, last]) =
      spans ++ [Span.between convert key last (begins convert default front key),
        Span.still last.time ((last.start.map convert).getD
          (Span.between convert key last (begins convert default front key)).finish)] := by
  obtain ⟨spans, reached, length, behind⟩ := spans_split convert default front key
  have start : (key.start.map convert).getD reached = begins convert default front key := by
    have way := spans_keys convert default (front ++ [key] ++ [key]) front.length
    rw [begun_front _ _ _ _ (by simp), List.append_assoc] at way
    change (spansFrom convert default (front ++ key :: [key]))[front.length]? = _ at way
    rw [behind, List.getElem?_append_right length.le, length, Nat.sub_self] at way
    simpa [spansFrom, Span.between, begins] using congrArg (Option.map Span.start) way
  refine ⟨spans, length, fun last => ?_⟩
  rw [behind, ← start]
  rfl

end Last

/-- The search looks at nothing but which spans have started. -/
theorem search_congr {spans spans' : Array (Span S V)} {time : S}
    (same : ∀ index, startsBy spans time index = startsBy spans' time index) (base size : ℕ) :
    search spans time base size = search spans' time base size := by
  fun_induction search spans time base size with
  | case1 base size small => rw [search, if_pos small]
  | case2 base size large half starts inductionHypothesis =>
    conv_rhs => rw [search, if_neg large]
    exact inductionHypothesis.trans (if_pos (same _ ▸ starts)).symm
  | case3 base size large half starts inductionHypothesis =>
    conv_rhs => rw [search, if_neg large]
    exact inductionHypothesis.trans (if_neg (same _ ▸ starts)).symm

section Replaced

variable [Blend S V] {convert : W → V} {default : V} {front : List (Keyframe S W)}
  {key last last' : Keyframe S W} {time : S}

omit [Blend S V] in
/-- Points follow their tangents or not, whatever the last keyframe is. -/
theorem curved_last (last last' : Keyframe S W) :
    (ofKeyframes convert default (front ++ [key, last'])).curved =
      (ofKeyframes convert default (front ++ [key, last])).curved := by
  obtain ⟨spans, -, split⟩ := spans_last convert default front key
  have bends (last : Keyframe S W) : (ofKeyframes convert default (front ++ [key, last])).curved =
      (spansFrom convert default (front ++ [key, last])).any Span.bends := by
    rw [ofKeyframes]
    split
    next none => rw [none]; rfl
    next some => rw [some]
  rw [bends, bends, split, split, List.any_append, List.any_append]
  rfl

/-- Before the last keyframe the value depends on it only on the way to it, from the keyframe in front
of it on. -/
theorem value_before_last (sameTime : last'.time = last.time) (notCome : ¬ last.time ≤ time)
    (sameWay : ∀ curved, key.time ≤ time →
      (Span.between convert key last' (begins convert default front key)).valueAt curved time =
        (Span.between convert key last (begins convert default front key)).valueAt curved time) :
    (ofKeyframes convert default (front ++ [key, last'])).valueAt time =
      (ofKeyframes convert default (front ++ [key, last])).valueAt time := by
  obtain ⟨spans, length, split⟩ := spans_last convert default front key
  have come (last : Keyframe S W) (index : ℕ) :=
    starts_come convert default (front ++ [key, last]) time index
  have started (index : ℕ) :
      startsBy (spansFrom convert default (front ++ [key, last'])).toArray time index =
        startsBy (spansFrom convert default (front ++ [key, last])).toArray time index := by
    have times := congrArg (fun times => times[index]?.any fun start => decide (start ≤ time))
      (show (front ++ [key, last']).map Keyframe.time = (front ++ [key, last]).map Keyframe.time by
        simp [sameTime])
    rw [come, come]
    simpa only [List.getElem?_map, Option.any_map] using times
  have size : (spansFrom convert default (front ++ [key, last'])).toArray.size =
      (spansFrom convert default (front ++ [key, last])).toArray.size := by simp [split]
  rw [valueAt, valueAt, spanAt?, spanAt?, keyed_spans, keyed_spans, size, search_congr started,
    started, curved_last last last']
  generalize search _ time 0 _ = index
  cases starts : startsBy (spansFrom convert default (front ++ [key, last])).toArray time index with
  | false =>
    -- No span has started, and the first one begins with the same value in both.
    simp only [Bool.false_eq_true, ↓reduceIte, List.getElem?_toArray, split]
    cases spans <;> rfl
  | true =>
    rw [come] at starts
    simp only [↓reduceIte, List.getElem?_toArray, split]
    obtain inFront | rfl | behind := lt_trichotomy index front.length
    · have bound : index < spans.length := by omega
      rw [List.getElem?_append_left bound, List.getElem?_append_left bound,
        List.getElem?_eq_getElem bound]
    · have keyCome : key.time ≤ time := by simpa using starts
      rw [← length, List.getElem?_append_right le_rfl, List.getElem?_append_right le_rfl,
        Nat.sub_self]
      exact sameWay _ keyCome
    · -- Behind the keyframe in front of it there is only the last one, which has not come.
      exfalso
      rw [List.getElem?_append_right behind.le] at starts
      obtain ⟨past, rfl⟩ := Nat.exists_eq_add_of_lt behind
      rw [show front.length + past + 1 - front.length = past + 1 by omega] at starts
      cases past with
      | zero => exact notCome (by simpa using starts)
      | succ => simp at starts

/-- On the way to the last keyframe the value is the one that the keyframe in front of it leads to. -/
theorem value_to_last [Scalar.Successive S]
    (later : (front ++ [key, last]).IsChain fun key next => key.time < next.time)
    (come : key.time ≤ time) (notCome : time < last.time) :
    (ofKeyframes convert default (front ++ [key, last])).valueAt time =
      (Span.between convert key last (begins convert default front key)).valueAt
        (ofKeyframes convert default (front ++ [key, last])).curved time := by
  obtain ⟨spans, length, split⟩ := spans_last convert default front key
  have found : (front ++ [key, last])[front.length]? = some key := by simp
  have following : (front ++ [key, last])[front.length + 1]? = some last := by simp
  refine value_in_span convert default later (.between found following come notCome) ?_
  rw [split, ← length, List.getElem?_append_right le_rfl, Nat.sub_self]
  rfl

/-- From the last keyframe on the value is its own, or else the one at which the way to it ends. -/
theorem value_from_last [Scalar.Successive S]
    (later : (front ++ [key, last]).IsChain fun key next => key.time < next.time)
    (come : last.time ≤ time) :
    (ofKeyframes convert default (front ++ [key, last])).valueAt time =
      (last.start.map convert).getD
        (Span.between convert key last (begins convert default front key)).finish := by
  obtain ⟨spans, length, split⟩ := spans_last convert default front key
  have found : (front ++ [key, last])[front.length + 1]? = some last := by simp
  have still : (spansFrom convert default (front ++ [key, last]))[front.length + 1]? =
      some (Span.still last.time ((last.start.map convert).getD
        (Span.between convert key last (begins convert default front key)).finish)) := by
    rw [split, List.getElem?_append_right (by omega), length, Nat.add_sub_cancel_left]
    rfl
  exact value_in_span convert default later (.last found (by simp) come) still

end Replaced

end Track

namespace Scene.Contour

variable {keys front : List (Keyframe S (Vertices S))} {key last : Keyframe S (Vertices S)}

/-- Nothing is held if the last keyframe says where it ends, or if no other one does. -/
theorem hold_nothing (none : ∀ last ∈ keys.getLast?, last.finish = none →
    ∀ key ∈ keys.dropLast, key.finish = Option.none) : holdLast keys = keys := by
  rw [holdLast]
  split
  next => rfl
  next last atLast =>
    cases ends : last.finish with
    | some => rfl
    | none =>
      have unsaid := List.findSome?_eq_none_iff.mpr fun key member =>
        none last atLast ends key (List.mem_reverse.mp member)
      rw [unsaid]
      rfl

/-- The last keyframe with the outline that is held. -/
def holding (last : Keyframe S (Vertices S)) (reached : Vertices S) : Keyframe S (Vertices S) :=
  { last with start := some (held (last.start.getD reached)) }

/-- What is held is the outline of the last keyframe, or else the last one at which another ends. -/
theorem hold_last (reached : Vertices S) (unended : last.finish = none)
    (ends : (front ++ [key]).reverse.findSome? (·.finish) = some reached) :
    holdLast (front ++ [key, last]) = front ++ [key, holding last reached] := by
  have atLast : (front ++ [key, last]).getLast? = some last := by simp
  have others : (front ++ [key, last]).dropLast = front ++ [key] := by
    rw [show front ++ [key, last] = front ++ [key] ++ [last] by simp, List.dropLast_concat]
  have notEnded : ¬ last.finish.isSome = true := by simp [unended]
  rw [holdLast, atLast]
  dsimp only
  rw [if_neg notEnded, others, ends]
  exact List.append_assoc _ _ _

/-- Where the last outline is held, and what it is. Nothing changes if the last keyframe says where it
ends, or if no other one does. Otherwise, before the last keyframe nothing changes unless the keyframe in
front of it leads to its outline, which is then the held one; and from the last keyframe on the outline
is the one without holding, held, if the last keyframe has a value or the one in front of it says where
it ends. If neither is so, an earlier end is held in place of the outline that the track stays at. -/
theorem last_outline_held [Scalar.Successive S] (authored : Document.FreeForm S)
    (keyed : authored.vertices.content = .keyed keys)
    (later : keys.IsChain fun key next => key.time < next.time) (time : S) :
    let plain := ((Track.ofProperty id {} authored.vertices).update time).value
    ∃ track, (ofFreeForm authored).update time = .freeForm track ∧
      ((∀ last ∈ keys.getLast?, last.finish = none → ∀ key ∈ keys.dropLast, key.finish = none) →
        track.value = plain) ∧
      ∀ front key last reached, keys = front ++ [key, last] → last.finish = none →
        (front ++ [key]).reverse.findSome? (·.finish) = some reached →
        let start := Track.begins id {} front key
        (¬ last.time ≤ time → (key.time ≤ time → key.finish.isSome = true ∨ key.hold = true) →
          track.value = plain) ∧
        (time < last.time → key.time ≤ time → track.value =
          (Span.between id key (holding last reached) start).valueAt track.curved time) ∧
        (last.time ≤ time → last.start.isSome = true ∨ key.finish.isSome = true →
          track.value = held plain) ∧
        (last.time ≤ time → last.start = none → key.finish = none →
          track.value = held reached ∧ plain = start) := by
  intro plain
  have plainValue : plain = (Track.ofKeyframes id {} keys).valueAt time := by
    refine (Track.update_value _ _).trans ?_
    rw [Track.ofProperty, keyed]
  have made : Track.ofProperty id {} (holdProperty authored.vertices) =
      Track.ofKeyframes id {} (holdLast keys) := by
    rw [holdProperty, keyed]
    rfl
  refine ⟨(Track.ofProperty id {} (holdProperty authored.vertices)).update time, rfl, ?_, ?_⟩
  · intro none
    rw [Track.update_value, made, hold_nothing none, plainValue]
  rintro front key last reached rfl unended ends start
  rw [Track.update_value, made, hold_last reached unended ends, plainValue]
  have laterHeld : (front ++ [key, holding last reached]).IsChain
      fun key next => key.time < next.time := by
    rw [← List.isChain_map Keyframe.time] at later ⊢
    simpa [holding] using later
  refine ⟨fun notCome sameWay => ?_, fun notCome come => ?_, fun come given => ?_,
    fun come absent unsaid => ?_⟩
  · refine Track.value_before_last rfl notCome fun curved keyCome => ?_
    obtain some | holds := sameWay keyCome
    · obtain ⟨finish, reaches⟩ := Option.isSome_iff_exists.mp some
      rw [Span.between, Span.between, reaches]
      rfl
    · rw [Span.valueAt, Span.valueAt, Span.between, Span.between, holds]
      rfl
  · have curved := (Track.update_spans (Track.ofKeyframes id {}
      (front ++ [key, holding last reached])) time).2
    rw [curved]
    exact Track.value_to_last laterHeld come notCome
  · rw [Track.value_from_last laterHeld come, Track.value_from_last later come]
    cases value : last.start with
    | some start => simp [holding, value]
    | none =>
      have some : key.finish.isSome = true := by simpa [value] using given
      obtain ⟨finish, reaches⟩ := Option.isSome_iff_exists.mp some
      obtain rfl : finish = reached := by simpa [reaches] using ends
      simp [holding, value, Span.between, reaches]
  · rw [Track.value_from_last laterHeld come, Track.value_from_last later come]
    simp [holding, absent, unsaid, Span.between, start]

/-- A property of an outline that changes with time. -/
def freeFormOf (keys : List (Keyframe S (Vertices S))) : Document.FreeForm S :=
  { vertices := { content := .keyed keys } }

/-- A closed arc from the origin. -/
noncomputable def arc (reach : ℝ) : Vertices ℝ :=
  { closed := true, arriving := [⟨0, 0⟩, ⟨0, reach⟩], leaving := [⟨0, reach⟩, ⟨0, 0⟩]
    points := [⟨0, 0⟩, ⟨reach, 0⟩] }

/-- An arc that grows for ten frames. -/
noncomputable def growing : List (Keyframe ℝ (Vertices ℝ)) :=
  [{ time := 0, start := some (arc 1), finish := some (arc 2) }, { time := 10 }]

/-- Once it has grown it is open and straight; on the way it is what it would be without holding. -/
theorem last_outline_held_growing :
    (∃ track, (ofFreeForm (freeFormOf growing)).update 12 = .freeForm track ∧
      track.value = { points := [⟨0, 0⟩, ⟨2, 0⟩], arriving := [⟨0, 0⟩, ⟨0, 0⟩]
                      leaving := [⟨0, 0⟩, ⟨0, 0⟩], closed := false }) ∧
      ∃ track, (ofFreeForm (freeFormOf growing)).update (5 : ℝ) = .freeForm track ∧
        track.value = ((Track.ofKeyframes id {} growing).update 5).value := by
  have later : growing.IsChain fun key next => key.time < next.time := by norm_num [growing]
  have come : (10 : ℝ) ≤ 12 := by norm_num
  have notCome : ¬ (10 : ℝ) ≤ 5 := by norm_num
  constructor
  · obtain ⟨track, isTrack, -, ends⟩ := last_outline_held (freeFormOf growing) rfl later 12
    obtain ⟨-, -, after, -⟩ := ends [] _ _ (arc 2) rfl rfl rfl
    have plain : ((Track.ofProperty id {} (freeFormOf growing).vertices).update 12).value = arc 2 := by
      rw [Track.update_value]
      change (Track.ofKeyframes id {} ([] ++ growing)).valueAt 12 = arc 2
      exact Track.value_from_last later come
    refine ⟨track, isTrack, ?_⟩
    rw [after come (.inr rfl), plain]
    simp [held, arc, Vec2.zero, Exact.numeral_zero]
  · obtain ⟨track, isTrack, -, ends⟩ := last_outline_held (freeFormOf growing) rfl later 5
    obtain ⟨before, -, -, -⟩ := ends [] _ _ (arc 2) rfl rfl rfl
    exact ⟨track, isTrack, before notCome fun _ => .inl rfl⟩

/-- A closed outline of one point. -/
noncomputable def dot (x : ℝ) : Vertices ℝ :=
  { closed := true, arriving := [⟨0, 0⟩], leaving := [⟨0, 0⟩], points := [⟨x, 0⟩] }

/-- A point that goes from one place to another, and then is put to a third, where it stays. -/
noncomputable def stray : List (Keyframe ℝ (Vertices ℝ)) :=
  [ { time := 0, start := some (dot 1), finish := some (dot 2) },
    { time := 10, start := some (dot 3) }, { time := 20 } ]

/-- Of the point that stays, an earlier end is held. Already before its last keyframe it leaves for
there. -/
theorem earlier_end_held :
    (stray.IsChain fun key next => key.time < next.time) ∧
      ((Track.ofProperty id {} (freeFormOf stray).vertices).update 15).value.points = [⟨3, 0⟩] ∧
      ∃ track, (ofFreeForm (freeFormOf stray)).update 15 = .freeForm track ∧
        track.value.points = [⟨5 / 2, 0⟩] := by
  have come : (10 : ℝ) ≤ 15 := by norm_num
  have notCome : (15 : ℝ) < 20 := by norm_num
  have eased : Easing.ease Vec2.zero (Vec2.both 1) ((15 - 10) / (20 - 10) : ℝ) = 1 / 2 := by
    rw [Exact.uneased] <;> norm_num
  let first : Keyframe ℝ (Vertices ℝ) :=
    { time := 0, start := some (dot 1), finish := some (dot 2) }
  let second : Keyframe ℝ (Vertices ℝ) := { time := 10, start := some (dot 3) }
  -- On the way from the second keyframe to the last one, whatever that one says.
  have way (start : Option (Vertices ℝ)) :
      (Track.ofKeyframes id {} ([first] ++ [second, { time := 20, start := start }])).valueAt 15 =
        Blend.vertices (dot 3) ((start.map id).getD (dot 3)) (1 / 2 : ℝ) := by
    have later : ([first] ++ [second, { time := 20, start := start }]).IsChain
        fun key next => key.time < next.time := by
      norm_num [first, second]
    rw [Track.value_to_last later come notCome, Exact.span_value _ come notCome, ← eased]
    change (if _ then Blend.vertices (dot 3) ((start.map id).getD (dot 3)) _
      else Blend.vertices (dot 3) ((start.map id).getD (dot 3)) _) = _
    rw [ite_self]
    simp only [Span.between, second, Span.control, Exact.numeral_one]
  refine ⟨by norm_num [stray], ?_, _, rfl, ?_⟩
  · rw [Track.update_value]
    change (Track.valueAt (Track.ofKeyframes id {} ([first] ++ [second, _])) 15).points = _
    rw [way]
    simp [Blend.vertices, Blend.sameShape, Blend.points, Blend.number, dot]
  · rw [Track.update_value]
    change (Track.valueAt (Track.ofKeyframes id {} (holdLast ([first] ++ [second, _]))) 15).points = _
    rw [hold_last (dot 2) rfl rfl, holding, way]
    norm_num [Blend.vertices, Blend.sameShape, Blend.points, Blend.number, dot, held]

end Scene.Contour

end VectorMotion
