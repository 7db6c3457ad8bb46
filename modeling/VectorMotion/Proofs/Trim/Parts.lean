import VectorMotion.Proofs.Curve.Traversal
import VectorMotion.Proofs.Trim.Pieces

/-!
# Parts of measured segments

With exact measuring, a piece that is kept of a segment is the part of it between two lengths. So a
piece is known by where it lies on the outline: the segment, the length in front of the segment, and
the two lengths that it begins and ends at. What is kept of an outline is told in these terms here,
without a parameter of a curve.
-/

namespace VectorMotion.Trim

/-- A part of a measured segment. All lengths are counted from the same place, in front of the
segment. -/
structure Part where
  measured : Measured ℝ
  /-- The length in front of the segment. -/
  position : ℝ
  low : ℝ
  high : ℝ

/-- The part as a segment. -/
noncomputable def Part.piece (part : Part) : Segment ℝ :=
  Exact.part part.measured.segment (part.low - part.position) (part.high - part.position)

/-- The part as a segment, with its subpath. -/
noncomputable def Part.numbered (part : Part) : Nat × Segment ℝ :=
  (part.measured.subpath, part.piece)

/-- The parts of measured segments between two lengths; `covered` is the length in front of the
first segment. -/
noncomputable def parts (low high : ℝ) : ℝ → List (Measured ℝ) → List Part
  | _, [] => []
  | covered, measured :: rest =>
    let reached := covered + measured.length
    (if max covered low < min reached high then
      [⟨measured, covered, max covered low, min reached high⟩] else []) ++
      parts low high reached rest

/-- A segment that counts, with its length. -/
structure Measured.Sound (measured : Measured ℝ) : Prop where
  exact : measured.length = Measure.length measured.segment
  counts : negligible < measured.length

/-- A segment that counts has some length. -/
theorem Measured.Sound.pos {measured : Measured ℝ} (sound : measured.Sound) :
    0 < measured.length := negligible_pos.trans sound.counts

/-- The segments of an outline are measured soundly. -/
theorem measure_sound (outline : Path ℝ) : ∀ measured ∈ measure outline, measured.Sound := by
  intro measured member
  obtain ⟨inside, counts⟩ := List.mem_filter.mp member
  obtain ⟨traced, -, rfl⟩ := List.mem_map.mp inside
  exact ⟨rfl, of_decide_eq_true counts⟩

/-- The length of an outline is not less than nothing. -/
theorem total_nonneg (outline : Path ℝ) : 0 ≤ totalLength (measure outline) := by
  rw [total_length]
  exact List.sum_nonneg (by simpa using fun measured member =>
    (measure_sound outline measured member).pos.le)

section Ends

variable {measured : Measured ℝ} (sound : measured.Sound) {covered low high : ℝ}
include sound

/-- A part begins at a length that is one on its segment. -/
theorem low_within (reaches : low < covered + measured.length) :
    max covered low - covered ∈ Set.Icc 0 (Measure.length measured.segment) := by
  have most : max covered low ≤ covered + measured.length :=
    max_le (by linarith [sound.pos]) reaches.le
  rw [← sound.exact]
  constructor <;> linarith [le_max_left covered low]

/-- A part ends at a length that is one on its segment. -/
theorem high_within (begins : covered < high) :
    min (covered + measured.length) high - covered ∈
      Set.Icc 0 (Measure.length measured.segment) := by
  have least : covered ≤ min (covered + measured.length) high :=
    le_min (by linarith [sound.pos]) begins.le
  rw [← sound.exact]
  constructor <;> linarith [min_le_left (covered + measured.length) high]

variable (covered low) in
/-- The parameter that a segment is cut at in front, which is its start if it is not cut. -/
theorem low_parameter :
    (if covered < low then Measure.parameterAt measured.segment (low - covered) else 0) =
      Measure.parameterAt measured.segment (max covered low - covered) := by
  have long : 0 < Measure.length measured.segment := sound.exact ▸ sound.pos
  split
  case isTrue less => rw [max_eq_right less.le]
  case isFalse notLess => rw [max_eq_left (not_lt.mp notLess), sub_self, Exact.parameter_start long]

variable (covered high) in
/-- The parameter that a segment is cut at behind, which is its end if it is not cut. -/
theorem high_parameter :
    (if high < covered + measured.length then
      Measure.parameterAt measured.segment (high - covered) else 1) =
      Measure.parameterAt measured.segment (min (covered + measured.length) high - covered) := by
  have long : 0 < Measure.length measured.segment := sound.exact ▸ sound.pos
  split
  case isTrue less => rw [min_eq_right less.le]
  case isFalse notLess =>
    rw [min_eq_left (not_lt.mp notLess), add_sub_cancel_left, sound.exact,
      Exact.parameter_finish long]

variable (covered low high) in
/-- What lies between two lengths of a segment, if anything does, is the part between them. -/
theorem piece_part : piece? measured covered (covered + measured.length) low high =
      if max covered low < min (covered + measured.length) high then
        some (Exact.part measured.segment (max covered low - covered)
          (min (covered + measured.length) high - covered))
      else none := by
  by_cases apart : covered + measured.length ≤ low ∨ high ≤ covered
  · have none : ¬ max covered low < min (covered + measured.length) high := by
      rcases apart with behind | before
      · exact not_lt.mpr ((min_le_left _ _).trans (behind.trans (le_max_right _ _)))
      · exact not_lt.mpr ((min_le_right _ _).trans (before.trans (le_max_left _ _)))
    rw [if_neg none, piece?, if_pos (by simpa using apart)]
  · rw [not_or, not_le, not_le] at apart
    obtain ⟨reaches, begins⟩ := apart
    have long : 0 < Measure.length measured.segment := sound.exact ▸ sound.pos
    have lowWithin := low_within sound reaches
    have highWithin := high_within sound begins
    have ordered := Exact.parameter_lt long lowWithin highWithin
    rw [sub_lt_sub_iff_right] at ordered
    simp only [piece?, Exact.numeral_zero, Exact.numeral_one, low_parameter sound covered low,
      high_parameter sound covered high, sub_nonpos]
    rw [if_neg (by simpa using ⟨reaches, begins⟩)]
    by_cases some : max covered low < min (covered + measured.length) high
    · rw [if_pos some, if_neg (not_le.mpr (ordered.mpr some))]
      -- A part that is not cut at either end is the segment itself.
      split
      case isTrue whole =>
        simp only [Bool.and_eq_true, decide_eq_true_eq] at whole
        have start := le_antisymm whole.1 (Exact.length_parameter long lowWithin).1.1
        have finish := le_antisymm (Exact.length_parameter long highWithin).1.2 whole.2
        rw [Exact.part, start, finish, Exact.between_whole]
      case isFalse => rfl
    · rw [if_neg some, if_pos (not_lt.mp (mt ordered.mp some))]

end Ends

/-- The pieces between two lengths are the parts between them. -/
theorem pieces_parts (low high covered : ℝ) {segments : List (Measured ℝ)}
    (sound : ∀ measured ∈ segments, measured.Sound) :
    pieces low high covered segments = (parts low high covered segments).map Part.numbered := by
  induction segments generalizing covered with
  | nil => rfl
  | cons measured rest inductionHypothesis =>
    obtain ⟨first, others⟩ := List.forall_mem_cons.mp sound
    rw [pieces, parts, piece_part first, inductionHypothesis _ others, List.map_append]
    split <;> rfl

/-- A part of a segment that counts, within its length. -/
structure Part.Proper (part : Part) : Prop where
  sound : part.measured.Sound
  ordered : part.low < part.high
  begins : part.position ≤ part.low
  ends : part.high ≤ part.position + part.measured.length

namespace Part.Proper

variable {part : Part} (proper : part.Proper)
include proper

/-- A part of some length covers a piece of its segment. -/
theorem covers : Exact.Covered part.measured.segment (part.low - part.position)
    (part.high - part.position) where
  nonneg := sub_nonneg.mpr proper.begins
  ordered := sub_lt_sub_right proper.ordered _
  within := by
    rw [← proper.sound.exact]
    linarith [proper.ends]

/-- A part is as long as its two lengths say. -/
theorem length_piece : Measure.length part.piece = part.high - part.low := by
  rw [piece, proper.covers.length_part, sub_sub_sub_cancel_right]

/-- A part goes through the points of its segment from its first length on. -/
theorem point_piece {y : ℝ} (within : y ∈ Set.Icc 0 (part.high - part.low)) :
    Exact.pointAfter part.piece y =
      Exact.pointAfter part.measured.segment (part.low - part.position + y) := by
  rw [piece, proper.covers.point_part (by rwa [sub_sub_sub_cancel_right])]

end Part.Proper

/-- Where a part lies: on one of some measured segments, of which the first begins at a length. -/
structure Part.Lies (covered : ℝ) (segments : List (Measured ℝ)) (part : Part) : Prop
    extends part.Proper where
  /-- The segment, with the length in front of it. -/
  place : ∃ front back, segments = front ++ part.measured :: back ∧
    part.position = covered + totalLength front

/-- Every part lies on one of the segments, at the length that they begin at. -/
theorem parts_lie (low high covered : ℝ) {segments : List (Measured ℝ)}
    (sound : ∀ measured ∈ segments, measured.Sound) :
    ∀ part ∈ parts low high covered segments, part.Lies covered segments := by
  induction segments generalizing covered with
  | nil => simp [parts]
  | cons measured rest inductionHypothesis =>
    obtain ⟨counts, others⟩ := List.forall_mem_cons.mp sound
    intro part member
    rcases List.mem_append.mp member with first | behind
    · split at first
      case isTrue ordered =>
        rw [List.mem_singleton.mp first]
        exact ⟨⟨counts, ordered, le_max_left _ _, min_le_left _ _⟩,
          [], rest, rfl, by simp [total_length]⟩
      case isFalse => cases first
    · obtain ⟨proper, front, back, split, position⟩ := inductionHypothesis _ others part behind
      refine ⟨proper, measured :: front, back, by rw [split, List.cons_append], ?_⟩
      rw [position, total_cons, add_assoc]

/-- The nearest value between two others. -/
noncomputable def nearest (low high x : ℝ) : ℝ := max low (min high x)

/-- What lies below a range is moved to its lower end. -/
theorem nearest_below {low high x : ℝ} (ordered : low ≤ high) (below : x ≤ low) :
    nearest low high x = low := by
  rw [nearest, min_eq_right (below.trans ordered), max_eq_left below]

/-- What lies above a range is moved to its upper end. -/
theorem nearest_above {low high x : ℝ} (ordered : low ≤ high) (above : high ≤ x) :
    nearest low high x = high := by
  rw [nearest, min_eq_left above, max_eq_right ordered]

/-- What two intervals share is as long as what is left of one of them in the other. -/
theorem shared_length {low high covered reached : ℝ} (ordered : low ≤ high)
    (further : covered ≤ reached) :
    (if max covered low < min reached high then min reached high - max covered low else 0) =
      nearest low high reached - nearest low high covered := by
  simp only [nearest, max_def, min_def]
  split_ifs <;> linarith

/-- The parts between two lengths are together as long as the stretch that they share with the
outline. -/
theorem parts_length {low high : ℝ} (ordered : low ≤ high) (covered : ℝ)
    {segments : List (Measured ℝ)} (sound : ∀ measured ∈ segments, measured.Sound) :
    ((parts low high covered segments).map fun part => part.high - part.low).sum =
      nearest low high (covered + totalLength segments) - nearest low high covered := by
  induction segments generalizing covered with
  | nil => simp [parts, total_length]
  | cons measured rest inductionHypothesis =>
    obtain ⟨first, others⟩ := List.forall_mem_cons.mp sound
    have further : covered ≤ covered + measured.length := by linarith [first.pos]
    have here : ((if max covered low < min (covered + measured.length) high then
        [(⟨measured, covered, max covered low, min (covered + measured.length) high⟩ : Part)]
        else []).map fun part => part.high - part.low).sum =
        nearest low high (covered + measured.length) - nearest low high covered := by
      rw [← shared_length ordered further]
      split <;> simp
    rw [parts, List.map_append, List.sum_append, here, inductionHypothesis _ others, total_cons,
      add_assoc]
    ring

/-- The parts of a window within the outline are as long as the window. -/
theorem parts_length_inside {low high : ℝ} (nonneg : 0 ≤ low) (ordered : low ≤ high)
    {segments : List (Measured ℝ)} (sound : ∀ measured ∈ segments, measured.Sound)
    (inside : high ≤ totalLength segments) :
    ((parts low high 0 segments).map fun part => part.high - part.low).sum = high - low := by
  rw [parts_length ordered 0 sound, zero_add, nearest_above ordered inside,
    nearest_below ordered nonneg]

end VectorMotion.Trim
