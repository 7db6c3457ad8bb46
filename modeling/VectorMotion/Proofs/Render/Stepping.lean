import VectorMotion.Proofs.Geometry.Planar
import VectorMotion.Proofs.Render.Repeating
import VectorMotion.Proofs.Scalar.Values

/-!
# Copies one step apart

A repeater stores the opacities of its copies, and stores them anew whenever its count may have
changed. So each copy that is drawn has an opacity of its own. The count is cut off at a thousand,
whatever number is authored.

The place of a copy is a power of the step. A power below zero is one of the inverse. Over the reals the
powers of a step that can be undone are those of a group, and the next copy is always one step on, also
from the last step backward to none at all.
-/

namespace VectorMotion

namespace Scene

open Matrix3 (Planar)

/-- The step of a repeater is a matrix of the plane. -/
theorem Step.matrix_planar (step : Step ℝ) : step.matrix.Planar :=
  ((((Matrix3.displacement_planar _).mul (Matrix3.displacement_planar _)).mul
    (Matrix3.rotation_planar _)).mul (Matrix3.scaling_planar _)).mul (Matrix3.displacement_planar _)

namespace Repeater

/-! ## The opacities of the copies -/

section Opacities

variable {S : Type} [Scalar S]

/-- The opacity of a copy: its place on the way from the first opacity to the last. -/
def ramp (repeater : Repeater S) (index : ℕ) : S :=
  Step.fade repeater.step.startOpacity.value repeater.step.endOpacity.value repeater.count index

/-- Whether a repeater has the opacities of its copies, and no others. -/
def Ramped (repeater : Repeater S) : Prop :=
  repeater.step.opacities = (Array.range repeater.count).map repeater.ramp

/-- Whenever its count may have changed, the opacities are stored anew. -/
theorem faded_ramped (repeater : Repeater S) : repeater.faded.Ramped := rfl

/-- So they are those of its copies at all times. -/
theorem updated_ramped (authored : Document.Repeater S) (times : List S) :
    (times.foldl update (ofDocument authored)).Ramped := by
  obtain rfl | ⟨times, time, rfl⟩ := times.eq_nil_or_concat'
  · exact faded_ramped _
  · rw [List.foldl_concat]
    exact faded_ramped _

/-- Each copy that is drawn has an opacity that is stored. -/
theorem Ramped.stored {repeater : Repeater S} (ramped : repeater.Ramped) :
    repeater.step.opacities.size = repeater.count ∧
      ∀ index < repeater.count, repeater.step.opacities[index]? = some (repeater.ramp index) := by
  constructor
  · rw [ramped, Array.size_map, Array.size_range]
  · intro index less
    rw [ramped]
    simp [less]

/-- Copies are drawn with the opacities that are stored. -/
theorem Ramped.instances {P : Type} [Scalar P] [Widen S P] {repeater : Repeater S}
    (ramped : repeater.Ramped) :
    (repeater.instances : List (Affine P × S)) =
      let copies := (List.range repeater.count).map fun index =>
        (repeater.placeOf index, repeater.ramp index)
      if repeater.composite = .below then copies.reverse else copies := by
  have each : ((List.range repeater.count).map fun index =>
      ((repeater.placeOf index : Affine P), repeater.step.opacityAt index)) =
      (List.range repeater.count).map fun index => (repeater.placeOf index, repeater.ramp index) := by
    refine List.map_congr_left fun index member => ?_
    rw [Step.opacityAt, Array.getD_eq_getD_getElem?,
      ramped.stored.2 index (List.mem_range.mp member), Option.getD_some]
  rw [Repeater.instances, each]
  cases repeater.composite <;> rfl

/-- Updates keep the order of the copies, and bring each number to the times. -/
theorem updated_tracks (authored : Document.Repeater S) (times : List S) :
    let repeater := times.foldl update (ofDocument authored)
    repeater.composite = Composite.ofCode authored.composite ∧
      repeater.copies = times.foldl Track.update (amount 1 authored.copies) ∧
      repeater.step.startOpacity = times.foldl Track.update (amount 100 authored.step.startOpacity) ∧
      repeater.step.endOpacity = times.foldl Track.update (amount 100 authored.step.endOpacity) := by
  induction times using List.reverseRecOn with
  | nil => exact ⟨rfl, rfl, rfl, rfl⟩
  | append_singleton times time inductionHypothesis =>
    obtain ⟨order, copies, start, finish⟩ := inductionHypothesis
    simp only [List.foldl_concat]
    exact ⟨order, congrArg (·.update time) copies, congrArg (·.update time) start,
      congrArg (·.update time) finish⟩

end Opacities

/-- However many copies are authored, at most a thousand are made. -/
theorem whole_count_most (count : Float32) : wholeCount count ≤ most := by
  suffices ∀ x : Float32, Scalar.truncateInto 0 most x ≤ most from
    Int.toNat_le.mpr (this (Scalar.max count 0))
  intro x
  have lower : (Scalar.ofInt 0 : Float32).toModel.unpack = .zero .positive := rfl
  have upper : (Scalar.ofInt most : Float32).toModel.unpack =
      .finite .positive (1000 * 2 ^ 14) (-14) (by decide) := rfl
  rw [Scalar.truncateInto]
  split_ifs with noNumber notAbove beyond
  · decide
  · decide
  · exact le_rfl
  · -- The infinities are beyond the ends, so a value is left that stands for a number.
    have finite : x.toModel.unpack.isFinite = true := by
      rw [Single.is_nan] at noNumber
      rw [Single.le_iff, lower] at notAbove
      rw [Single.le_iff, upper] at beyond
      cases value : x.toModel.unpack with
      | notANumber => exact absurd (by rw [value]; rfl) noNumber
      | infinity sign =>
        rw [value] at notAbove beyond
        cases sign with
        | negative => exact absurd rfl notAbove
        | positive => exact absurd rfl beyond
      | zero | finite => rfl
    rw [Single.le_number finite (by rw [lower]; rfl), not_le, Single.number, lower] at notAbove
    rw [Single.le_number (by rw [upper]; rfl) finite, not_le] at beyond
    have thousand : Single.number (Scalar.ofInt most) = (most : ℤ) := by
      rw [Single.number, upper]
      norm_num [Rounded.number, Float.Model.UnpackedFloat.Sign.apply, most]
    exact (Single.truncate_within finite notAbove.le (beyond.trans_eq thousand).le (by decide)).2

/-! ## The places of the copies -/

/-- A step that can be undone is carried out so many times, and undone so many times if there are
less than none. -/
theorem of_stepped {step : Matrix3 ℝ} (planar : step.Planar) {unit : (Affine ℝ)ˣ}
    (isStep : (unit : Affine ℝ) = Affine.ofMatrix step) (steps : ℤ) :
    (Affine.ofMatrix (stepped step steps) : Affine ℝ) = ((unit ^ steps : (Affine ℝ)ˣ) : Affine ℝ) := by
  rw [stepped]
  split
  case isTrue backward =>
    obtain ⟨inversePlanar, undone⟩ :=
      planar.inverse (Affine.determinant_unit (isStep ▸ unit.isUnit))
    have inverse : ((unit⁻¹ : (Affine ℝ)ˣ) : Affine ℝ) = Affine.ofMatrix step.inverse :=
      Units.inv_eq_of_mul_eq_one_left (isStep ▸ undone)
    have count : steps = -steps.natAbs := by omega
    rw [Affine.of_power inversePlanar, ← inverse, count, zpow_neg, zpow_natCast, Int.natAbs_neg,
      Int.natAbs_natCast, ← inv_pow, Units.val_pow_eq_pow_val]
  case isFalse forward =>
    have count : steps = steps.natAbs := by omega
    rw [Affine.of_power planar, ← isStep, count, zpow_natCast, Int.natAbs_natCast,
      Units.val_pow_eq_pow_val]

/-- An offset by a whole number of steps is taken as it is. -/
theorem whole_offset {steps : ℤ} (atLeast : -most ≤ steps) (atMost : steps ≤ most) :
    wholeOffset (steps : ℝ) = steps := by
  have inside : Scalar.clamp (steps : ℝ) (-(Scalar.ofNat most)) (Scalar.ofNat most) = steps := by
    have low : -((most : ℕ) : ℝ) ≤ steps := by exact_mod_cast atLeast
    have high : (steps : ℝ) ≤ (most : ℕ) := by exact_mod_cast atMost
    exact (if_neg low.not_gt).trans (if_neg high.not_gt)
  have rounded : Scalar.round (steps : ℝ) = steps := by
    change ((Exact.round (steps : ℝ) : ℤ) : ℝ) = steps
    rw [Int.cast_inj, Exact.round]
    split
    · rw [Int.ceil_eq_iff]
      constructor <;> linarith
    · rw [Int.floor_eq_iff]
      constructor <;> linarith
  rw [wholeOffset, inside, rounded, Exact.truncated_whole atLeast atMost]

/-- Whether a copy is as many steps away as its index and the offset say. -/
def Unclamped {S : Type} [Scalar S] (repeater : Repeater S) (index : ℕ) : Prop :=
  repeater.stepsOf index = index + wholeOffset repeater.offset.value

/-- Nothing is cut off of steps that are within the bounds. -/
theorem unclamped_within {S : Type} [Scalar S] {repeater : Repeater S} {index : ℕ}
    (few : index ≤ most) (atLeast : -most ≤ index + wholeOffset repeater.offset.value)
    (atMost : index + wholeOffset repeater.offset.value ≤ most) : repeater.Unclamped index := by
  rw [Unclamped, stepsOf, withinMost, min_eq_left few, min_eq_right atMost, max_eq_right atLeast]

/-- From one copy to the next it is one step. -/
theorem place_next (repeater : Repeater ℝ) (index : ℕ)
    (unit : IsUnit (Affine.ofMatrix repeater.step.matrix : Affine ℝ))
    (here : repeater.Unclamped index) (next : repeater.Unclamped (index + 1)) :
    (repeater.placeOf (index + 1) : Affine ℝ) =
      repeater.placeOf index * Affine.ofMatrix repeater.step.matrix := by
  obtain ⟨unit, isStep⟩ := unit
  have planar := repeater.step.matrix_planar
  have steps : repeater.stepsOf (index + 1) = repeater.stepsOf index + 1 := by
    rw [here, next]
    push_cast
    ring
  rw [placeOf, placeOf, of_stepped planar isStep, of_stepped planar isStep, steps, zpow_add_one,
    Units.val_mul, isStep]

/-- A repeater of a document, brought to any times one after the other, has as many opacities as
copies, which are at most a thousand, and each copy is drawn with its own, at its place on the way from
the first opacity to the last. The copies come in the order that is authored. Over the reals, if the
step can be undone, each copy is one step behind the one before, unless the steps of one of them are cut
off; so it is as well where they are counted from below zero. -/
theorem copies_evenly_stepped :
    (∀ (authored : Document.Repeater Float32) (times : List Float32),
      let repeater := times.foldl update (ofDocument authored)
      let start := (times.foldl Track.update (amount 100 authored.step.startOpacity)).value
      let finish := (times.foldl Track.update (amount 100 authored.step.endOpacity)).value
      let ramp (index : ℕ) := Scalar.clamp
        ((start + (finish - start) * Scalar.ofNat index / Scalar.ofNat repeater.count) / 100) 0 1
      repeater.count = wholeCount (times.foldl Track.update (amount 1 authored.copies)).value ∧
        repeater.count ≤ 1000 ∧ repeater.step.opacities.size = repeater.count ∧
        (∀ index < repeater.count, repeater.step.opacities[index]? = some (ramp index)) ∧
        (repeater.instances : List (Affine Float × Float32)) =
          let copies := (List.range repeater.count).map fun index =>
            (repeater.placeOf index, ramp index)
          if authored.composite = 2 then copies.reverse else copies) ∧
      ∀ (repeater : Repeater ℝ) (index : ℕ),
        IsUnit (Affine.ofMatrix repeater.step.matrix : Affine ℝ) → repeater.Unclamped index →
          repeater.Unclamped (index + 1) →
          (repeater.placeOf (index + 1) : Affine ℝ) =
            repeater.placeOf index * Affine.ofMatrix repeater.step.matrix := by
  refine ⟨?_, place_next⟩
  intro authored times repeater start finish ramp
  have ramped : repeater.Ramped := updated_ramped authored times
  obtain ⟨order, isCopies, isStart, isFinish⟩ := updated_tracks authored times
  have isRamp : repeater.ramp = ramp := by
    unfold Repeater.ramp
    rw [isStart, isFinish]
    rfl
  obtain ⟨size, stored⟩ := ramped.stored
  have drawn : (repeater.instances : List (Affine Float × Float32)) = _ := ramped.instances
  have below : repeater.composite = .below ↔ authored.composite = 2 := by
    rw [order, Composite.ofCode]
    split <;> simp_all
  rw [isRamp] at stored drawn
  simp only [below] at drawn
  exact ⟨congrArg (fun copies : Track Float32 Float32 => wholeCount copies.value) isCopies,
    whole_count_most _, size, stored, drawn⟩

end Repeater

end Scene

namespace Render

open Scene

/-- Two copies ten apart, the first of them one step back. -/
noncomputable def tenBack : Repeater ℝ := { tenAside with offset := still (-1) }

/-- The second copy is in its place, and the first one ten in front of it. -/
theorem ten_back_stepped : tenBack.stepsOf 0 = -1 ∧ tenBack.stepsOf 1 = 0 ∧
    (tenBack.placeOf 1 : Affine ℝ) = tenBack.placeOf 0 * ⟨1, 0, 0, 1, 10, 0⟩ := by
  have offset : Repeater.wholeOffset tenBack.offset.value = -1 := by
    have whole := @Repeater.whole_offset (-1) (by decide) (by decide)
    rwa [Int.cast_neg, Int.cast_one] at whole
  have first : tenBack.Unclamped 0 :=
    Repeater.unclamped_within (by decide) (by rw [offset]; decide) (by rw [offset]; decide)
  have second : tenBack.Unclamped 1 :=
    Repeater.unclamped_within (by decide) (by rw [offset]; decide) (by rw [offset]; decide)
  have step : (Affine.ofMatrix tenBack.step.matrix : Affine ℝ) = ⟨1, 0, 0, 1, 10, 0⟩ :=
    congrArg Affine.ofMatrix step_matrix
  have undone (x : ℝ) : (⟨1, 0, 0, 1, x, 0⟩ : Affine ℝ) * ⟨1, 0, 0, 1, -x, 0⟩ = 1 := by
    refine Eq.trans ?_ Exact.identity_numbers.symm
    rw [Exact.product_numbers]
    norm_num
  have unit : IsUnit (Affine.ofMatrix tenBack.step.matrix : Affine ℝ) :=
    ⟨⟨_, _, undone 10, by simpa using undone (-10)⟩, step.symm⟩
  refine ⟨first.trans (by rw [offset]; rfl), second.trans (by rw [offset]; rfl), ?_⟩
  rw [← step]
  exact Repeater.copies_evenly_stepped.2 tenBack 0 unit first second

end Render

end VectorMotion
