import Mathlib.Algebra.Polynomial.Roots
import Mathlib.Analysis.Calculus.ContDiff.Operations
import Mathlib.Analysis.Calculus.ContDiff.Polynomial
import Mathlib.Analysis.Calculus.ContDiff.RCLike
import VectorMotion.Proofs.Scalar.Exact

/-!
# Segments by length

Exact measuring along a segment. A segment of some length is traversed without a halt, so to every
length up to its own there is one parameter, and measuring up to a parameter and looking for the
parameter of a length undo each other. A segment can therefore be spoken of by lengths alone: the
point after a length, and the part between two lengths, which is as long as it should be and of
which the parts are parts of the whole.

That nothing is traversed twice is not asked for. A curve may come back to where it was, or turn
round on a line; its length goes on.
-/

namespace VectorMotion.Exact

open Polynomial

section Parameters

/-- A point of a curve with one control point is the mean of its points by the weights of Bernstein.
-/
theorem quad_point (p c q : Vec2 ℝ) (t : ℝ) : Segment.quadAt p c q t =
    ⟨p.x * (1 - t) ^ 2 + c.x * (2 * (1 - t) * t) + q.x * t ^ 2,
      p.y * (1 - t) ^ 2 + c.y * (2 * (1 - t) * t) + q.y * t ^ 2⟩ := by
  simp only [Segment.quadAt, Vec2.scale, vector_sum, numeral]
  ext <;> push_cast <;> ring

/-- A point of a curve with two control points is the mean of its points by the weights of
Bernstein. -/
theorem cubic_point (p c c' q : Vec2 ℝ) (t : ℝ) : Segment.cubicAt p c c' q t =
    ⟨p.x * (1 - t) ^ 3 + c.x * (3 * (1 - t) ^ 2 * t) + c'.x * (3 * (1 - t) * t ^ 2) + q.x * t ^ 3,
      p.y * (1 - t) ^ 3 + c.y * (3 * (1 - t) ^ 2 * t) + c'.y * (3 * (1 - t) * t ^ 2) +
        q.y * t ^ 3⟩ := by
  simp only [Segment.cubicAt, Vec2.scale, vector_sum, numeral]
  ext <;> push_cast <;> ring

/-- Both coordinates of a segment are polynomials in its parameter. -/
theorem eval_polynomials (segment : Segment ℝ) :
    ∃ f g : ℝ[X], ∀ t, segment.eval t = ⟨f.eval t, g.eval t⟩ := by
  cases segment with
  | line p q =>
    refine ⟨C p.x + C (q.x - p.x) * X, C p.y + C (q.y - p.y) * X, fun t => ?_⟩
    simp [Segment.eval, vector_sum, vector_difference, Vec2.scale]
  | quad p c q =>
    refine ⟨C p.x * (1 - X) ^ 2 + C c.x * (2 * (1 - X) * X) + C q.x * X ^ 2,
      C p.y * (1 - X) ^ 2 + C c.y * (2 * (1 - X) * X) + C q.y * X ^ 2, fun t => ?_⟩
    simp [Segment.eval, quad_point]
  | cubic p c c' q =>
    refine ⟨C p.x * (1 - X) ^ 3 + C c.x * (3 * (1 - X) ^ 2 * X) + C c'.x * (3 * (1 - X) * X ^ 2) +
        C q.x * X ^ 3,
      C p.y * (1 - X) ^ 3 + C c.y * (3 * (1 - X) ^ 2 * X) + C c'.y * (3 * (1 - X) * X ^ 2) +
        C q.y * X ^ 3, fun t => ?_⟩
    simp [Segment.eval, cubic_point]

/-- A segment begins at its first point. -/
theorem eval_start (segment : Segment ℝ) : segment.eval 0 = segment.start := by
  cases segment with
  | line p q =>
    simp only [Segment.eval, Segment.start, vector_sum, vector_difference, Vec2.scale]
    ext <;> simp
  | quad p c q => simp [Segment.eval, Segment.start, quad_point]
  | cubic p c c' q => simp [Segment.eval, Segment.start, cubic_point]

/-- A segment ends at its last point. -/
theorem eval_finish (segment : Segment ℝ) : segment.eval 1 = segment.finish := by
  cases segment with
  | line p q =>
    simp only [Segment.eval, Segment.finish, vector_sum, vector_difference, Vec2.scale]
    ext <;> simp
  | quad p c q => simp [Segment.eval, Segment.finish, quad_point]
  | cubic p c c' q => simp [Segment.eval, Segment.finish, cubic_point]

/-- A piece of a segment begins where the segment is at the first parameter. -/
theorem between_start (segment : Segment ℝ) (first last : ℝ) :
    (segment.between first last).start = segment.eval first := by
  cases segment <;> rfl

/-- A piece of a segment ends where the segment is at the last parameter. -/
theorem between_finish (segment : Segment ℝ) (first last : ℝ) :
    (segment.between first last).finish = segment.eval last := by
  cases segment <;> rfl

/-- The part between two parameters is traversed as the segment is between them. -/
theorem between_eval (segment : Segment ℝ) (first last t : ℝ) :
    (segment.between first last).eval t = segment.eval (first + (last - first) * t) := by
  cases segment with
  | line p q =>
    simp only [Segment.between, Segment.eval, vector_sum, vector_difference, Vec2.scale]
    ext <;> simp only <;> ring
  | quad p c q =>
    simp only [Segment.between, Segment.eval, vector_sum, vector_difference, Vec2.scale, Vec2.lerp,
      quad_point]
    ext <;> simp only <;> ring
  | cubic p c c' q =>
    simp only [Segment.between, Segment.eval, vector_sum, vector_difference, Vec2.scale, quad_point,
      cubic_point, numeral]
    ext <;> push_cast <;> ring

/-- The piece from one end to the other is the segment itself. -/
theorem between_whole (segment : Segment ℝ) : segment.between 0 1 = segment := by
  cases segment with
  | line p q =>
    simp only [Segment.between, vector_sum, vector_difference, Vec2.scale]
    congr 1 <;> ext <;> simp only <;> ring
  | quad p c q =>
    simp only [Segment.between, vector_sum, vector_difference, Vec2.scale, Vec2.lerp, quad_point]
    congr 1 <;> ext <;> simp only <;> ring
  | cubic p c c' q =>
    simp only [Segment.between, vector_sum, vector_difference, Vec2.scale, quad_point, cubic_point,
      numeral]
    congr 1 <;> ext <;> push_cast <;> ring

/-- A part of a part is a part of the whole. -/
theorem between_between (segment : Segment ℝ) (first last low high : ℝ) :
    (segment.between first last).between low high =
      segment.between (first + (last - first) * low) (first + (last - first) * high) := by
  cases segment with
  | line p q =>
    simp only [Segment.between, vector_sum, vector_difference, Vec2.scale]
    congr 1 <;> ext <;> simp only <;> ring
  | quad p c q =>
    simp only [Segment.between, vector_sum, vector_difference, Vec2.scale, Vec2.lerp, quad_point]
    congr 1 <;> ext <;> simp only <;> ring
  | cubic p c c' q =>
    simp only [Segment.between, vector_sum, vector_difference, Vec2.scale, quad_point, cubic_point,
      numeral]
    congr 1 <;> ext <;> push_cast <;> ring

end Parameters

section Lengths

/-- A segment as a curve in the complex plane. -/
noncomputable def curve (segment : Segment ℝ) (t : ℝ) : ℂ :=
  ⟨(segment.eval t).x, (segment.eval t).y⟩

/-- The length of a segment between two parameters. -/
noncomputable def travelled (segment : Segment ℝ) (first last : ℝ) : ℝ :=
  (eVariationOn (curve segment) (Set.Icc first last)).toReal

/-- The length up to a parameter is what has been travelled since the start. -/
theorem length_travelled (segment : Segment ℝ) (t : ℝ) :
    lengthTo segment t = travelled segment 0 t := rfl

/-- The length of a segment is the length up to its end. -/
theorem measured_length (segment : Segment ℝ) : Measure.length segment = lengthTo segment 1 := rfl

/-- Over a bounded range of parameters a segment has a bounded speed. -/
theorem curve_lipschitz (segment : Segment ℝ) (first last : ℝ) :
    ∃ speed, LipschitzOnWith speed (curve segment) (Set.Icc first last) := by
  obtain ⟨f, g, coordinates⟩ := eval_polynomials segment
  have sum : curve segment =
      fun t => ((f.eval t : ℝ) : ℂ) + ((g.eval t : ℝ) : ℂ) * Complex.I := by
    funext t
    rw [curve, coordinates, Complex.mk_eq_add_mul_I]
  have smooth (h : ℝ[X]) : ContDiff ℝ 1 fun t => ((h.eval t : ℝ) : ℂ) :=
    Complex.ofRealCLM.contDiff.comp (by simpa using h.contDiff_aeval (𝕜 := ℝ) 1)
  have together : ContDiff ℝ 1 (curve segment) := by
    rw [sum]
    exact (smooth f).add ((smooth g).mul contDiff_const)
  exact together.contDiffOn.exists_lipschitzOnWith one_ne_zero (convex_Icc first last)
    isCompact_Icc

/-- Where the speed is bounded, so is the length of what is traversed. -/
theorem variation_le {segment : Segment ℝ} {bounds : Set ℝ} {speed : NNReal}
    (bounded : LipschitzOnWith speed (curve segment) bounds) {first last : ℝ}
    (inside : Set.Icc first last ⊆ bounds) :
    eVariationOn (curve segment) (Set.Icc first last) ≤
      ENNReal.ofReal (speed * (last - first)) := by
  have whole : eVariationOn (id : ℝ → ℝ) (Set.Icc first last) = ENNReal.ofReal (last - first) := by
    have monotone := (monotone_id (α := ℝ)).monotoneOn Set.univ
    have whole := monotone.eVariationOn_eq (Set.mem_univ first) (Set.mem_univ last)
    rwa [Set.univ_inter] at whole
  calc eVariationOn (curve segment ∘ id) (Set.Icc first last)
      ≤ speed * eVariationOn id (Set.Icc first last) := bounded.comp_eVariationOn_le inside
    _ = ENNReal.ofReal (speed * (last - first)) := by
      rw [whole, ENNReal.ofReal_mul speed.coe_nonneg, ENNReal.ofReal_coe_nnreal]

/-- A piece of a segment has a finite length. -/
theorem variation_finite (segment : Segment ℝ) (first last : ℝ) :
    eVariationOn (curve segment) (Set.Icc first last) ≠ ⊤ := by
  obtain ⟨speed, bounded⟩ := curve_lipschitz segment first last
  exact ne_top_of_le_ne_top ENNReal.ofReal_ne_top (variation_le bounded subset_rfl)

/-- What is travelled in two stretches, one behind the other, adds up. -/
theorem travelled_add (segment : Segment ℝ) {first middle last : ℝ} (before : first ≤ middle)
    (behind : middle ≤ last) :
    travelled segment first middle + travelled segment middle last =
      travelled segment first last := by
  have parts := eVariationOn.Icc_add_Icc (curve segment) before behind (Set.mem_univ middle)
  simp only [Set.univ_inter] at parts
  rw [travelled, travelled, travelled, ← parts,
    ENNReal.toReal_add (variation_finite segment _ _) (variation_finite segment _ _)]

/-- Nothing travelled is less than no length at all. -/
theorem travelled_nonneg (segment : Segment ℝ) (first last : ℝ) :
    0 ≤ travelled segment first last := ENNReal.toReal_nonneg

/-- A segment on which nothing is travelled for a while is a point. -/
theorem still_of_travelled {segment : Segment ℝ} {first last : ℝ} (ordered : first < last)
    (none : travelled segment first last = 0) (t : ℝ) :
    curve segment t = curve segment first := by
  obtain ⟨f, g, coordinates⟩ := eval_polynomials segment
  have still : ∀ s ∈ Set.Icc first last,
      f.eval s = f.eval first ∧ g.eval s = g.eval first := by
    intro s inside
    have zero : eVariationOn (curve segment) (Set.Icc first last) = 0 :=
      ((ENNReal.toReal_eq_zero_iff _).mp none).resolve_right (variation_finite segment _ _)
    have near := eVariationOn.edist_le (curve segment) inside (Set.left_mem_Icc.mpr ordered.le)
    rw [zero] at near
    have same := edist_le_zero.mp near
    rw [curve, curve, coordinates, coordinates] at same
    exact Complex.mk.inj same
  -- A polynomial that has one value throughout an interval has it everywhere.
  have constant (h : ℝ[X]) (same : ∀ s ∈ Set.Icc first last, h.eval s = h.eval first) :
      h.eval t = h.eval first := by
    have infinite : {s | h.eval s = (C (h.eval first)).eval s}.Infinite :=
      (Set.Icc_infinite ordered).mono fun s inside => by simpa using same s inside
    rw [Polynomial.eq_of_infinite_eval_eq _ _ infinite, eval_C, eval_C]
  rw [curve, curve, coordinates, coordinates, constant f fun s inside => (still s inside).1,
    constant g fun s inside => (still s inside).2]

/-- On a segment of some length, something is travelled between any two parameters. -/
theorem travelled_pos {segment : Segment ℝ} (long : 0 < lengthTo segment 1) {first last : ℝ}
    (ordered : first < last) : 0 < travelled segment first last := by
  refine lt_of_le_of_ne (travelled_nonneg segment first last) fun none => long.ne' ?_
  have still := still_of_travelled ordered none.symm
  rw [length_travelled, travelled, ENNReal.toReal_eq_zero_iff]
  refine .inl (eVariationOn.constant_on ?_)
  rintro _ ⟨s, -, rfl⟩ _ ⟨u, -, rfl⟩
  rw [still s, still u]

/-- Along a segment of some length every step adds to the length. -/
theorem length_increases {segment : Segment ℝ} (long : 0 < lengthTo segment 1) :
    StrictMonoOn (lengthTo segment) (Set.Icc 0 1) := by
  intro first firstInside last lastInside ordered
  have parts := travelled_add segment firstInside.1 ordered.le
  have more := travelled_pos long ordered
  rw [length_travelled, length_travelled]
  linarith

/-- The length up to a parameter grows without jumps. -/
theorem length_continuous (segment : Segment ℝ) :
    ContinuousOn (lengthTo segment) (Set.Icc 0 1) := by
  obtain ⟨speed, bounded⟩ := curve_lipschitz segment 0 1
  have step {first last : ℝ} (firstInside : first ∈ Set.Icc (0 : ℝ) 1)
      (lastInside : last ∈ Set.Icc (0 : ℝ) 1) (ordered : first ≤ last) :
      |lengthTo segment last - lengthTo segment first| ≤ speed * |last - first| := by
    have parts := travelled_add segment firstInside.1 ordered
    have nonneg := travelled_nonneg segment first last
    have most : travelled segment first last ≤ speed * (last - first) :=
      ENNReal.toReal_le_of_le_ofReal (mul_nonneg speed.coe_nonneg (sub_nonneg.mpr ordered))
        (variation_le bounded (Set.Icc_subset_Icc firstInside.1 lastInside.2))
    have difference : lengthTo segment last - lengthTo segment first =
        travelled segment first last := by
      rw [length_travelled, length_travelled]
      linarith
    rwa [difference, abs_of_nonneg nonneg, abs_of_nonneg (sub_nonneg.mpr ordered)]
  have lipschitz : LipschitzOnWith speed (lengthTo segment) (Set.Icc 0 1) := by
    refine .of_dist_le_mul fun first firstInside last lastInside => ?_
    rw [Real.dist_eq, Real.dist_eq]
    rcases le_total first last with ordered | reversed
    · rw [abs_sub_comm, abs_sub_comm first]
      exact step firstInside lastInside ordered
    · exact step lastInside firstInside reversed
  exact lipschitz.continuousOn

/-- No length has been travelled at the start. -/
theorem length_start (segment : Segment ℝ) : lengthTo segment 0 = 0 := by
  rw [length_travelled, travelled, Set.Icc_self,
    eVariationOn.subsingleton _ Set.subsingleton_singleton, ENNReal.toReal_zero]

/-- What is travelled on a part of a segment is travelled on the segment. -/
theorem between_travelled (segment : Segment ℝ) {first last : ℝ} (ordered : first < last) (t : ℝ) :
    lengthTo (segment.between first last) t =
      travelled segment first (first + (last - first) * t) := by
  have mapped : curve (segment.between first last) =
      curve segment ∘ fun u => (last - first) * u + first := by
    funext u
    rw [Function.comp_apply, curve, curve, between_eval, add_comm]
  have monotone : MonotoneOn (fun u => (last - first) * u + first) (Set.Icc 0 t) :=
    fun u _ v _ below =>
      add_le_add_left (mul_le_mul_of_nonneg_left below (sub_nonneg.mpr ordered.le)) first
  rw [length_travelled, travelled, travelled, mapped,
    eVariationOn.comp_eq_of_monotoneOn _ _ monotone, Set.image_affine_Icc' (sub_pos.mpr ordered),
    mul_zero, zero_add, add_comm]

/-- The length of a line up to a parameter is in proportion to the parameter. -/
theorem line_length (p q : Vec2 ℝ) {t : ℝ} (nonneg : 0 ≤ t) :
    lengthTo (.line p q) t = t * √((q.x - p.x) ^ 2 + (q.y - p.y) ^ 2) := by
  have size : ‖(⟨q.x - p.x, q.y - p.y⟩ : ℂ)‖ = √((q.x - p.x) ^ 2 + (q.y - p.y) ^ 2) :=
    Complex.norm_eq_sqrt_sq_add_sq _
  have apart (u v : ℝ) : dist (curve (.line p q) u) (curve (.line p q) v) =
      √((q.x - p.x) ^ 2 + (q.y - p.y) ^ 2) * dist u v := by
    have difference : curve (.line p q) u - curve (.line p q) v =
        ((u - v : ℝ) : ℂ) * ⟨q.x - p.x, q.y - p.y⟩ := by
      apply Complex.ext <;>
        simp [curve, Segment.eval, vector_sum, vector_difference, Vec2.scale] <;> ring
    rw [dist_eq_norm, difference, norm_mul, size, Complex.norm_real, Real.dist_eq, Real.norm_eq_abs,
      mul_comm]
  have bounded : LipschitzOnWith (√((q.x - p.x) ^ 2 + (q.y - p.y) ^ 2)).toNNReal
      (curve (.line p q)) (Set.Icc 0 t) := .of_dist_le' fun u _ v _ => (apart u v).le
  have most := variation_le bounded subset_rfl
  have least := eVariationOn.edist_le (curve (.line p q)) (Set.right_mem_Icc.mpr nonneg)
    (Set.left_mem_Icc.mpr nonneg)
  rw [edist_dist, apart, Real.dist_eq, sub_zero, abs_of_nonneg nonneg] at least
  rw [Real.coe_toNNReal _ (Real.sqrt_nonneg _), sub_zero] at most
  rw [length_travelled, travelled, le_antisymm most least,
    ENNReal.toReal_ofReal (mul_nonneg (Real.sqrt_nonneg _) nonneg), mul_comm]

end Lengths

section Inverse

variable {segment : Segment ℝ}

/-- The parameter at which a length has been covered is the one that the length belongs to. -/
theorem parameter_length (long : 0 < Measure.length segment) {t : ℝ}
    (inside : t ∈ Set.Icc (0 : ℝ) 1) :
    Measure.parameterAt segment (lengthTo segment t) = t := by
  have covered : {u | u ∈ Set.Icc (0 : ℝ) 1 ∧ lengthTo segment u ≤ lengthTo segment t} =
      Set.Icc 0 t := by
    ext u
    constructor
    · rintro ⟨uInside, below⟩
      exact ⟨uInside.1, ((length_increases long).le_iff_le uInside inside).mp below⟩
    · rintro ⟨nonneg, below⟩
      have uInside : u ∈ Set.Icc (0 : ℝ) 1 := ⟨nonneg, below.trans inside.2⟩
      exact ⟨uInside, ((length_increases long).le_iff_le uInside inside).mpr below⟩
  show sSup _ = t
  rw [covered]
  exact csSup_Icc inside.1

/-- Every length up to that of the segment has been covered at its parameter. -/
theorem length_parameter (long : 0 < Measure.length segment) {goal : ℝ}
    (within : goal ∈ Set.Icc 0 (Measure.length segment)) :
    Measure.parameterAt segment goal ∈ Set.Icc (0 : ℝ) 1 ∧
      lengthTo segment (Measure.parameterAt segment goal) = goal := by
  have all := intermediate_value_Icc zero_le_one (length_continuous segment)
  rw [length_start, ← measured_length] at all
  obtain ⟨t, inside, reached⟩ := all within
  rw [← reached, parameter_length long inside]
  exact ⟨inside, rfl⟩

/-- No length is reached at the start. -/
theorem parameter_start (long : 0 < Measure.length segment) :
    Measure.parameterAt segment 0 = (0 : ℝ) := by
  have start := parameter_length long (Set.left_mem_Icc.mpr zero_le_one)
  rwa [length_start] at start

/-- The whole length is reached at the end. -/
theorem parameter_finish (long : 0 < Measure.length segment) :
    Measure.parameterAt segment (Measure.length segment) = (1 : ℝ) :=
  parameter_length long (Set.right_mem_Icc.mpr zero_le_one)

/-- A greater length is reached at a greater parameter, and only then. -/
theorem parameter_lt (long : 0 < Measure.length segment) {low high : ℝ}
    (lowWithin : low ∈ Set.Icc 0 (Measure.length segment))
    (highWithin : high ∈ Set.Icc 0 (Measure.length segment)) :
    Measure.parameterAt segment low < Measure.parameterAt segment high ↔ low < high := by
  obtain ⟨lowInside, lowReached⟩ := length_parameter long lowWithin
  obtain ⟨highInside, highReached⟩ := length_parameter long highWithin
  rw [← (length_increases long).lt_iff_lt lowInside highInside, lowReached, highReached]

end Inverse

section Parts

/-- The point at which a length of a segment has been covered. -/
noncomputable def pointAfter (segment : Segment ℝ) (length : ℝ) : Vec2 ℝ :=
  segment.eval (Measure.parameterAt segment length)

/-- The part of a segment between two lengths. -/
noncomputable def part (segment : Segment ℝ) (low high : ℝ) : Segment ℝ :=
  segment.between (Measure.parameterAt segment low) (Measure.parameterAt segment high)

/-- Two lengths, one less than the other, that are covered on a segment. -/
structure Covered (segment : Segment ℝ) (low high : ℝ) : Prop where
  nonneg : 0 ≤ low
  ordered : low < high
  within : high ≤ Measure.length segment

/-- After no length the point is the start. -/
theorem point_start {segment : Segment ℝ} (long : 0 < Measure.length segment) :
    pointAfter segment 0 = segment.start := by
  rw [pointAfter, parameter_start long, eval_start]

/-- After the whole length the point is the end. -/
theorem point_finish {segment : Segment ℝ} (long : 0 < Measure.length segment) :
    pointAfter segment (Measure.length segment) = segment.finish := by
  rw [pointAfter, parameter_finish long, eval_finish]

/-- A part begins at the point after its first length. -/
theorem part_start (segment : Segment ℝ) (low high : ℝ) :
    (part segment low high).start = pointAfter segment low := between_start ..

/-- A part ends at the point after its last length. -/
theorem part_finish (segment : Segment ℝ) (low high : ℝ) :
    (part segment low high).finish = pointAfter segment high := between_finish ..

namespace Covered

variable {segment : Segment ℝ} {low high : ℝ} (covered : Covered segment low high)
include covered

/-- A segment that has a part of some length has a length itself. -/
theorem long : 0 < Measure.length segment :=
  (covered.nonneg.trans_lt covered.ordered).trans_le covered.within

/-- The length at which the part begins is one on the segment. -/
theorem low_within : low ∈ Set.Icc 0 (Measure.length segment) :=
  ⟨covered.nonneg, covered.ordered.le.trans covered.within⟩

/-- The length at which the part ends is one on the segment. -/
theorem high_within : high ∈ Set.Icc 0 (Measure.length segment) :=
  ⟨covered.nonneg.trans covered.ordered.le, covered.within⟩

/-- The part runs forward in the parameter too. -/
theorem parameters_ordered :
    0 < Measure.parameterAt segment high - Measure.parameterAt segment low :=
  sub_pos.mpr ((parameter_lt covered.long covered.low_within covered.high_within).mpr
    covered.ordered)

/-- How much of a part has been traversed at a parameter of the segment. -/
theorem length_part_to {t : ℝ} (behind : Measure.parameterAt segment low ≤ t) :
    lengthTo (part segment low high)
        ((t - Measure.parameterAt segment low) /
          (Measure.parameterAt segment high - Measure.parameterAt segment low)) =
      lengthTo segment t - low := by
  obtain ⟨inside, reached⟩ := length_parameter covered.long covered.low_within
  have sum := travelled_add segment inside.1 behind
  rw [← length_travelled, ← length_travelled, reached] at sum
  rw [part, between_travelled segment (sub_pos.mp covered.parameters_ordered),
    mul_div_cancel₀ _ covered.parameters_ordered.ne', add_sub_cancel]
  exact eq_sub_of_add_eq' sum

/-- The part between two lengths is as long as their difference. -/
theorem length_part : Measure.length (part segment low high) = high - low := by
  have whole := covered.length_part_to (sub_pos.mp covered.parameters_ordered).le
  rwa [div_self covered.parameters_ordered.ne',
    (length_parameter covered.long covered.high_within).2] at whole

/-- A length of a part has been covered where that much more of the segment has been. -/
theorem parameter_part {x : ℝ} (within : x ∈ Set.Icc 0 (high - low)) :
    Measure.parameterAt segment low +
        (Measure.parameterAt segment high - Measure.parameterAt segment low) *
          Measure.parameterAt (part segment low high) x =
      Measure.parameterAt segment (low + x) := by
  have further : low + x ∈ Set.Icc 0 (Measure.length segment) := by
    constructor <;> linarith [within.1, within.2, covered.nonneg, covered.within]
  have behind : Measure.parameterAt segment low ≤ Measure.parameterAt segment (low + x) := by
    rw [← not_lt, parameter_lt covered.long further covered.low_within]
    linarith [within.1]
  have before : Measure.parameterAt segment (low + x) ≤ Measure.parameterAt segment high := by
    rw [← not_lt, parameter_lt covered.long covered.high_within further]
    linarith [within.2]
  have some : 0 < Measure.length (part segment low high) := by
    rw [covered.length_part]
    exact sub_pos.mpr covered.ordered
  have traversed := covered.length_part_to behind
  rw [(length_parameter covered.long further).2, add_sub_cancel_left] at traversed
  rw [← traversed, parameter_length some, mul_div_cancel₀ _ covered.parameters_ordered.ne',
    add_sub_cancel, traversed]
  exact ⟨div_nonneg (sub_nonneg.mpr behind) covered.parameters_ordered.le,
    (div_le_one covered.parameters_ordered).mpr (sub_le_sub_right before _)⟩

/-- The part between two lengths is traversed as the segment is from the first length on. -/
theorem point_part {x : ℝ} (within : x ∈ Set.Icc 0 (high - low)) :
    pointAfter (part segment low high) x = pointAfter segment (low + x) := by
  rw [pointAfter, part, between_eval, ← part, covered.parameter_part within, pointAfter]

/-- A part of a part is a part of the whole. -/
theorem part_part {x y : ℝ} (first : x ∈ Set.Icc 0 (high - low))
    (last : y ∈ Set.Icc 0 (high - low)) :
    part (part segment low high) x y = part segment (low + x) (low + y) := by
  rw [part, part, between_between, ← part, covered.parameter_part first,
    covered.parameter_part last, part]

end Covered

/-- The length of a level line to the right is its width. -/
theorem level_length {a b : ℝ} (y : ℝ) (ordered : a ≤ b) {t : ℝ} (nonneg : 0 ≤ t) :
    lengthTo (.line ⟨a, y⟩ ⟨b, y⟩) t = t * (b - a) := by
  rw [line_length _ _ nonneg]
  simp [Real.sqrt_sq (sub_nonneg.mpr ordered)]

/-- The length of a level line is its width. -/
theorem level_width {a b : ℝ} (y : ℝ) (ordered : a ≤ b) :
    Measure.length (.line ⟨a, y⟩ ⟨b, y⟩ : Segment ℝ) = b - a := by
  rw [measured_length, level_length y ordered zero_le_one, one_mul]

/-- The part of a level line between two lengths. -/
theorem level_part {a b : ℝ} (y : ℝ) {low high : ℝ}
    (covered : Covered (.line ⟨a, y⟩ ⟨b, y⟩) low high) (ordered : a < b) :
    part (.line ⟨a, y⟩ ⟨b, y⟩) low high = .line ⟨a + low, y⟩ ⟨a + high, y⟩ := by
  have wide : 0 < b - a := sub_pos.mpr ordered
  have width : Measure.length (.line ⟨a, y⟩ ⟨b, y⟩) = b - a := level_width y ordered.le
  have parameter {x : ℝ} (within : x ∈ Set.Icc 0 (Measure.length (.line ⟨a, y⟩ ⟨b, y⟩))) :
      Measure.parameterAt (.line ⟨a, y⟩ ⟨b, y⟩) x = x / (b - a) := by
    rw [width] at within
    have share := div_nonneg within.1 wide.le
    have reached := level_length y ordered.le share
    rw [div_mul_cancel₀ _ wide.ne'] at reached
    rw [← parameter_length covered.long ⟨share, (div_le_one wide).mpr within.2⟩, reached]
  rw [part, parameter covered.low_within, parameter covered.high_within]
  simp only [Segment.between, vector_sum, vector_difference, Vec2.scale, mul_div_cancel₀ _ wide.ne',
    sub_self, zero_mul, add_zero]

end Parts

end VectorMotion.Exact
