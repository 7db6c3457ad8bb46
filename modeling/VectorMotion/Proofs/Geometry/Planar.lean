import VectorMotion.Proofs.Scalar.Exact

/-!
# Maps of the plane as matrices

Maps are multiplied together as matrices of three columns, and of a product only the upper two rows are
kept. Nothing is lost by this where the last row is that of the identity. Such are the matrices of which
all transforms are made, and with them their products, their powers, and their inverses where the map
can be undone.
-/

namespace VectorMotion

namespace Matrix3

/-- A matrix of a map of the plane. -/
structure Planar (m : Matrix3 ℝ) : Prop where
  first : m.first.z = 0
  second : m.second.z = 0
  third : m.third.z = 1

/-- A displacement is a map of the plane. -/
theorem displacement_planar (v : Vec2 ℝ) : (displacement v).Planar :=
  ⟨Exact.numeral_zero, Exact.numeral_zero, Exact.numeral_one⟩

/-- So is a scaling. -/
theorem scaling_planar (v : Vec2 ℝ) : (scaling v).Planar :=
  ⟨Exact.numeral_zero, Exact.numeral_zero, Exact.numeral_one⟩

/-- So is a rotation. -/
theorem rotation_planar (angle : ℝ) : (rotation angle).Planar :=
  ⟨Exact.numeral_zero, Exact.numeral_zero, Exact.numeral_one⟩

/-- Maps of the plane make one together. -/
theorem Planar.mul {a b : Matrix3 ℝ} (outer : a.Planar) (inner : b.Planar) : (a * b).Planar := by
  constructor <;>
    simp [Exact.matrix_product, apply, outer.first, outer.second, outer.third, inner.first, inner.second,
      inner.third]

end Matrix3

namespace Affine

open Matrix3 (Planar)

/-- The map of a product is the product of the maps. -/
theorem of_product (outer : Matrix3 ℝ) {inner : Matrix3 ℝ} (planar : inner.Planar) :
    (ofMatrix (outer * inner) : Affine ℝ) = ofMatrix outer * ofMatrix inner := by
  simp [ofMatrix, Exact.matrix_product, Exact.product_numbers, Matrix3.apply, planar.first,
    planar.second, planar.third]

/-- Multiplied one after the other, factors make a power. -/
theorem of_times (start : Matrix3 ℝ) {base : Matrix3 ℝ} (planar : base.Planar) (steps : ℕ) :
    (ofMatrix (start.times base steps) : Affine ℝ) = ofMatrix start * ofMatrix base ^ steps := by
  induction steps generalizing start with
  | zero => rw [pow_zero, mul_one, Matrix3.times]
  | succ steps inductionHypothesis =>
    rw [Matrix3.times, inductionHypothesis, of_product start planar, pow_succ', mul_assoc]

/-- Repeating a map of the plane is repeating its matrix. -/
theorem of_power {base : Matrix3 ℝ} (planar : base.Planar) (steps : ℕ) :
    (ofMatrix (base.power steps) : Affine ℝ) = ofMatrix base ^ steps := by
  rw [Matrix3.power, of_times _ planar]
  exact one_mul _

/-- The factors by which maps change areas are multiplied. -/
theorem determinant_product (m n : Affine ℝ) :
    (m * n).determinant = m.determinant * n.determinant := by
  simp only [Exact.product_numbers, determinant]
  ring

/-- A map that can be undone lets no area vanish. -/
theorem determinant_unit {m : Affine ℝ} (unit : IsUnit m) : m.determinant ≠ 0 := by
  obtain ⟨n, inverse⟩ := unit.exists_right_inv
  have product : m.determinant * n.determinant = 1 := by
    rw [← determinant_product, inverse]
    change determinant Affine.identity = 1
    rw [Exact.identity_numbers]
    norm_num [determinant]
  exact left_ne_zero_of_mul_eq_one product

end Affine

namespace Matrix3

/-- The inverse by cofactors, in numbers. -/
theorem inverse_numbers {a b c d e f size : ℝ} (isSize : size = a * d - b * c) (solid : size ≠ 0) :
    inverse (⟨⟨a, b, 0⟩, ⟨c, d, 0⟩, ⟨e, f, 1⟩⟩ : Matrix3 ℝ) =
      ⟨⟨d / size, -b / size, 0⟩, ⟨-c / size, a / size, 0⟩,
        ⟨(c * f - e * d) / size, (e * b - a * f) / size, 1⟩⟩ := by
  have crossed : a * d - c * b = size := by rw [isSize, mul_comm c]
  simp [inverse, Column.cross, Column.dot, Column.scale, transpose, Exact.numeral_one, crossed,
    div_eq_mul_inv, mul_inv_cancel₀ solid]

/-- The inverse by cofactors is a matrix of a map of the plane as well, and its map undoes the other. -/
theorem Planar.inverse {m : Matrix3 ℝ} (planar : m.Planar)
    (solid : (Affine.ofMatrix m : Affine ℝ).determinant ≠ 0) :
    m.inverse.Planar ∧ (Affine.ofMatrix m.inverse : Affine ℝ) * Affine.ofMatrix m = 1 := by
  obtain ⟨⟨a, b, _⟩, ⟨c, d, _⟩, ⟨e, f, _⟩⟩ := m
  obtain ⟨rfl, rfl, rfl⟩ := planar
  obtain ⟨size, isSize⟩ : ∃ size, size = a * d - b * c := ⟨_, rfl⟩
  have notZero : size ≠ 0 := isSize ▸ solid
  rw [inverse_numbers isSize notZero]
  refine ⟨⟨rfl, rfl, rfl⟩, ?_⟩
  change _ = Affine.identity
  rw [Exact.identity_numbers, Exact.product_numbers]
  ext <;> simp only [Affine.ofMatrix, Exact.widening]
  case a | d =>
    field_simp
    linear_combination -isSize
  all_goals ring

end Matrix3

end VectorMotion
