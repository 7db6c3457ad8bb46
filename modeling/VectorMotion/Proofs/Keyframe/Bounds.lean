import Mathlib
import VectorMotion.Keyframe.Track
import VectorMotion.Proofs.Scalar.Exact

/-!
# Easing stays within its ends

Newton's method need not come near the parameter that it looks for: the control points may lie
anywhere in time, and it is given up after a few steps. What can be said of it with exact arithmetic
holds for every parameter that it comes by. A step is taken only where the slope is not flat, so it
does not divide by zero, and after it the parameter is moved back between zero and one.

That is all that the fraction of the way needs. It is a mean of zero, the two control points and
one, with weights that are not below zero and add up to one, whatever the parameter is. So an eased
number lies between the two that it is eased between, if the control points do.
-/

namespace VectorMotion

namespace Easing

section Course

variable {S : Type} [Scalar S]

/-- A parameter that Newton's method comes by, with the slope that it divides by there if it goes
on. -/
structure Stop (S : Type) where
  parameter : S
  divisor : Option S

/-- All parameters that Newton's method comes by, from `t` on. -/
def course (first second time : S) : Nat → S → List (Stop S)
  | 0, t => [⟨t, none⟩]
  | steps + 1, t =>
    let miss := coordinate first second t - time
    let steep := slope first second t
    if Scalar.abs miss < closeEnough then [⟨t, none⟩]
    else if Scalar.abs steep < flat then [⟨t, none⟩]
    else ⟨t, some steep⟩ :: course first second time steps (Scalar.clamp (t - miss / steep) 0 1)

/-- Newton's method ends with the last parameter that it comes by. -/
theorem refine_course (first second time : S) (steps : Nat) (t : S) :
    (course first second time steps t).getLast?.map Stop.parameter =
      some (refine first second time steps t) := by
  induction steps generalizing t with
  | zero => rfl
  | succ steps inductionHypothesis =>
    rw [course, refine]
    split
    · rfl
    · split
      · rfl
      · obtain ⟨stop, isLast, ends⟩ := Option.map_eq_some_iff.mp (inductionHypothesis
          (Scalar.clamp (t - (coordinate first second t - time) / slope first second t) 0 1))
        rw [List.getLast?_cons, isLast, ← ends]
        rfl

end Course

/-! ## Exact arithmetic -/

/-- The slope under which a curve counts as flat is above zero. -/
theorem flat_pos : (0 : ℝ) < flat := by
  have exact : (flat : ℝ) = ((1 : ℕ) : ℝ) / 10 ^ 6 := rfl
  rw [exact]
  positivity

/-- What has been moved between zero and one lies there. -/
theorem clamp_within (x : ℝ) : Scalar.clamp x 0 1 ∈ Set.Icc (0 : ℝ) 1 := by
  unfold Scalar.clamp
  split
  case isTrue => exact ⟨le_rfl, zero_le_one⟩
  case isFalse notBelow =>
    split
    case isTrue => exact ⟨zero_le_one, le_rfl⟩
    case isFalse notAbove => exact ⟨not_lt.mp notBelow, not_lt.mp notAbove⟩

/-- A step of Newton's method does not divide by zero, and no parameter leaves the range. -/
theorem course_within (first second time : ℝ) (steps : ℕ) {t : ℝ} (within : t ∈ Set.Icc (0 : ℝ) 1) :
    ∀ stop ∈ course first second time steps t,
      stop.parameter ∈ Set.Icc (0 : ℝ) 1 ∧ ∀ divisor ∈ stop.divisor, divisor ≠ 0 := by
  have still {t : ℝ} (within : t ∈ Set.Icc (0 : ℝ) 1) : ∀ stop ∈ [(⟨t, none⟩ : Stop ℝ)],
      stop.parameter ∈ Set.Icc (0 : ℝ) 1 ∧ ∀ divisor ∈ stop.divisor, divisor ≠ 0 := by
    simpa using within
  induction steps generalizing t with
  | zero => exact still within
  | succ steps inductionHypothesis =>
    simp only [course, Exact.numeral_zero, Exact.numeral_one]
    split
    · exact still within
    · split
      · exact still within
      case isFalse notFlat =>
        refine List.forall_mem_cons.mpr ⟨⟨within, ?_⟩, inductionHypothesis (clamp_within _)⟩
        rintro _ ⟨⟩ level
        have least : flat ≤ |slope first second t| := not_lt.mp notFlat
        rw [level, abs_zero] at least
        exact absurd flat_pos least.not_gt

/-- However often a guess is refined, it stays between zero and one. -/
theorem refine_within (first second time : ℝ) (steps : ℕ) {t : ℝ} (within : t ∈ Set.Icc (0 : ℝ) 1) :
    refine first second time steps t ∈ Set.Icc (0 : ℝ) 1 := by
  obtain ⟨stop, isLast, ends⟩ :=
    Option.map_eq_some_iff.mp (refine_course first second time steps t)
  rw [← ends]
  exact (course_within first second time steps within stop (List.mem_of_getLast? isLast)).1

/-- A coordinate of the curve is a mean of zero, those of the control points and one. -/
theorem coordinate_within {first second t : ℝ} (firstWithin : first ∈ Set.Icc (0 : ℝ) 1)
    (secondWithin : second ∈ Set.Icc (0 : ℝ) 1) (within : t ∈ Set.Icc (0 : ℝ) 1) :
    coordinate first second t ∈ Set.Icc (0 : ℝ) 1 := by
  obtain ⟨firstNonneg, firstLe⟩ := firstWithin
  obtain ⟨secondNonneg, secondLe⟩ := secondWithin
  obtain ⟨nonneg, le⟩ := within
  have rest : 0 ≤ 1 - t := sub_nonneg.mpr le
  have mean : coordinate first second t =
      3 * (1 - t) * (1 - t) * t * first + 3 * (1 - t) * t * t * second + t * t * t := by
    simp only [coordinate, Exact.numeral]
    norm_num
  have lacking : 1 - coordinate first second t =
      (1 - t) ^ 3 + 3 * (1 - t) * (1 - t) * t * (1 - first) + 3 * (1 - t) * t * t * (1 - second) := by
    rw [mean]
    ring
  have firstRest : 0 ≤ 1 - first := sub_nonneg.mpr firstLe
  have secondRest : 0 ≤ 1 - second := sub_nonneg.mpr secondLe
  constructor
  · rw [mean]
    positivity
  · rw [← sub_nonneg, lacking]
    positivity

/-- The fraction of the way lies between zero and one. -/
theorem ease_within {first second : Vec2 ℝ} (firstWithin : first.y ∈ Set.Icc (0 : ℝ) 1)
    (secondWithin : second.y ∈ Set.Icc (0 : ℝ) 1) (time : ℝ) :
    ease first second time ∈ Set.Icc (0 : ℝ) 1 := by
  simp only [ease, Exact.numeral_zero, Exact.numeral_one]
  split
  case isTrue => exact ⟨le_rfl, zero_le_one⟩
  case isFalse begun =>
    split
    case isTrue => exact ⟨zero_le_one, le_rfl⟩
    case isFalse notOver =>
      have within : time ∈ Set.Icc (0 : ℝ) 1 := ⟨(not_le.mp begun).le, (not_le.mp notOver).le⟩
      split
      · exact within
      · exact coordinate_within firstWithin secondWithin (refine_within _ _ _ _ within)

end Easing

/-- A number on the way from one to another lies between them. -/
theorem Blend.number_within (a b : ℝ) {t : ℝ} (within : t ∈ Set.Icc (0 : ℝ) 1) :
    Blend.number a b t ∈ Set.uIcc a b := by
  obtain ⟨nonneg, le⟩ := within
  have made : Blend.number a b t = a + (b - a) * t := rfl
  rw [made]
  rcases le_total a b with ordered | ordered
  · have part : (b - a) * t ≤ b - a := mul_le_of_le_one_right (sub_nonneg.mpr ordered) le
    have above : 0 ≤ (b - a) * t := mul_nonneg (sub_nonneg.mpr ordered) nonneg
    rw [Set.uIcc_of_le ordered]
    constructor <;> linarith
  · have part : (a - b) * t ≤ a - b := mul_le_of_le_one_right (sub_nonneg.mpr ordered) le
    have above : 0 ≤ (a - b) * t := mul_nonneg (sub_nonneg.mpr ordered) nonneg
    rw [Set.uIcc_of_ge ordered]
    constructor <;> linarith

/-- The value of a span of numbers lies between those at its ends, if its easing does. -/
theorem Span.value_within (span : Span ℝ ℝ)
    (eased : ∀ fraction, Easing.ease span.easeOut span.easeIn fraction ∈ Set.Icc (0 : ℝ) 1)
    (curved : Bool) (time : ℝ) : span.valueAt curved time ∈ Set.uIcc span.start span.finish := by
  unfold Span.valueAt
  split
  · exact Set.left_mem_uIcc
  · dsimp only
    split
    · exact Set.right_mem_uIcc
    · -- Numbers have no tangents to follow, so a curved way is the straight one.
      split <;> exact Blend.number_within _ _ (eased _)

/-- Easing never overshoots. If the control points of a span lie between zero and one in the way, at
whatever times, then Newton's method, at every fraction of the time, keeps its parameter between zero
and one however many steps it takes, and divides by no zero on its course to the parameter that it
ends with; the fraction of the way is zero at the start, one at the end, and between them always; and
the value at any time lies between those at the two ends of the span. -/
theorem Span.never_overshoots (span : Span ℝ ℝ) (first : span.easeOut.y ∈ Set.Icc (0 : ℝ) 1)
    (second : span.easeIn.y ∈ Set.Icc (0 : ℝ) 1) :
    (∀ fraction ∈ Set.Icc (0 : ℝ) 1,
      let course := Easing.course span.easeOut.x span.easeIn.x fraction Easing.mostSteps fraction
      (∀ steps, Easing.refine span.easeOut.x span.easeIn.x fraction steps fraction ∈
        Set.Icc (0 : ℝ) 1) ∧
      (∀ stop ∈ course,
        stop.parameter ∈ Set.Icc (0 : ℝ) 1 ∧ ∀ divisor ∈ stop.divisor, divisor ≠ 0) ∧
      course.getLast?.map Easing.Stop.parameter =
        some (Easing.refine span.easeOut.x span.easeIn.x fraction Easing.mostSteps fraction)) ∧
    (∀ fraction, Easing.ease span.easeOut span.easeIn fraction ∈ Set.Icc (0 : ℝ) 1) ∧
    Easing.ease span.easeOut span.easeIn 0 = 0 ∧ Easing.ease span.easeOut span.easeIn 1 = 1 ∧
    ∀ curved time, span.valueAt curved time ∈ Set.uIcc span.start span.finish := by
  have eased := Easing.ease_within first second
  refine ⟨fun fraction within => ⟨fun steps => Easing.refine_within _ _ _ steps within, ?_,
    Easing.refine_course ..⟩, eased, ?_, ?_, span.value_within eased⟩
  · exact Easing.course_within _ _ _ _ within
  · simp [Easing.ease, Exact.numeral_zero]
  · simp [Easing.ease, Exact.numeral_zero, Exact.numeral_one]

/-- A fall from a hundred to zero in ten frames, whose control points lie far outside of its time. -/
noncomputable def steepFall : Span ℝ ℝ :=
  { startTime := 0, endTime := 10, start := 100, finish := 0, easeOut := ⟨5, 1⟩, easeIn := ⟨-4, 0⟩
    hold := false, tangentOut := ⟨0, 0⟩, tangentIn := ⟨0, 0⟩ }

/-- Still its value does not leave the range. -/
theorem steep_fall_within :
    steepFall.easeOut.y ∈ Set.Icc (0 : ℝ) 1 ∧ steepFall.easeIn.y ∈ Set.Icc (0 : ℝ) 1 ∧
      (∀ fraction ∈ Set.Icc (0 : ℝ) 1,
        ∀ stop ∈ Easing.course 5 (-4) fraction Easing.mostSteps fraction,
          stop.parameter ∈ Set.Icc (0 : ℝ) 1 ∧ ∀ divisor ∈ stop.divisor, divisor ≠ 0) ∧
      Easing.ease steepFall.easeOut steepFall.easeIn 0 = 0 ∧
      Easing.ease steepFall.easeOut steepFall.easeIn 1 = 1 ∧
      ∀ time, steepFall.valueAt false time ∈ Set.uIcc 0 100 := by
  have first : steepFall.easeOut.y ∈ Set.Icc (0 : ℝ) 1 := ⟨zero_le_one, le_rfl⟩
  have second : steepFall.easeIn.y ∈ Set.Icc (0 : ℝ) 1 := ⟨le_rfl, zero_le_one⟩
  obtain ⟨course, -, start, finish, between⟩ := steepFall.never_overshoots first second
  refine ⟨first, second, fun fraction within => (course fraction within).2.1, start, finish, ?_⟩
  intro time
  rw [Set.uIcc_comm]
  exact between false time

end VectorMotion
