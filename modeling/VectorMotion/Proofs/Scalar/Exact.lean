import Mathlib.Analysis.SpecialFunctions.Complex.Arg
import Mathlib.Topology.EMetricSpace.BoundedVariation
import VectorMotion.Curve.Measure
import VectorMotion.Geometry.Affine
import VectorMotion.Scalar.Binary

/-!
# Exact scalars

The real numbers as a scalar. No definition of the library names a number type, so each of them can
be read over the reals, where nothing is rounded and every value is a number. What is stated of
exact arithmetic is stated there.

Two things differ from the scalars that run. A quotient by zero is zero, and the root of a negative
number is zero, where those have a value that is no number or an infinity.
-/

namespace VectorMotion

/-- The value of a binary number. -/
noncomputable def Binary.toReal (value : Binary) : ℝ :=
  (if value.negative then -1 else 1) * value.mantissa * (2 : ℝ) ^ value.exponent

/-- The value of a double precision number; those that are not finite have none. -/
noncomputable def Double.toReal (x : Float) : ℝ := ((Binary.ofDouble? x).map Binary.toReal).getD 0

namespace Exact

/-- The fraction cut off. -/
noncomputable def truncate (x : ℝ) : ℤ := if x < 0 then ⌈x⌉ else ⌊x⌋

/-- The nearest whole number, halves away from zero. -/
noncomputable def round (x : ℝ) : ℤ := if x < 0 then ⌈x - 1 / 2⌉ else ⌊x + 1 / 2⌋

open Classical in
noncomputable instance : Scalar ℝ where
  decideLt _ _ := inferInstance
  decideLe _ _ := inferInstance
  beq a b := decide (a = b)
  ofNat n := n
  ofScientific mantissa negative exponent :=
    if negative then mantissa / 10 ^ exponent else mantissa * 10 ^ exponent
  ofDouble := Double.toReal
  toDouble x := epsilon fun double => ∀ other, |Double.toReal double - x| ≤ |Double.toReal other - x|
  truncate := truncate
  abs x := |x|
  floor x := ⌊x⌋
  ceil x := ⌈x⌉
  round x := round x
  sqrt := Real.sqrt
  hypot a b := Real.sqrt (a ^ 2 + b ^ 2)
  sin := Real.sin
  cos := Real.cos
  tan := Real.tan
  atan2 y x := Complex.arg ⟨x, y⟩
  degree := Real.pi / 180
  remainder a b := a - b * truncate (a / b)
  precedes a b := decide (a ≤ b)

instance : Widen ℝ ℝ where
  widen := id
  narrow := id

/-- The length of a segment up to a parameter. -/
noncomputable def lengthTo (segment : Segment ℝ) (t : ℝ) : ℝ :=
  (eVariationOn (fun t => (⟨(segment.eval t).x, (segment.eval t).y⟩ : ℂ)) (Set.Icc 0 t)).toReal

/-- Segments are measured by the length of what has been traversed. -/
noncomputable instance : Measure ℝ where
  length segment := lengthTo segment 1
  parameterAt segment goal := sSup {t | t ∈ Set.Icc 0 1 ∧ lengthTo segment t ≤ goal}

/-- The numerals of scalars, as naturals among the reals. They are rewritten alone: a numeral of
the reals would be rewritten as well. -/
theorem numeral (n : ℕ) : @OfNat.ofNat ℝ n (Scalar.instOfNat n) = n := rfl

/-- The numeral zero stands for the real number. -/
theorem numeral_zero : @OfNat.ofNat ℝ 0 (Scalar.instOfNat 0) = 0 := Nat.cast_zero

/-- The numeral one stands for the real number. -/
theorem numeral_one : @OfNat.ofNat ℝ 1 (Scalar.instOfNat 1) = 1 := Nat.cast_one

/-- The numeral for a hundred stands for the real number. -/
theorem numeral_hundred : @OfNat.ofNat ℝ 100 (Scalar.instOfNat 100) = 100 := Nat.cast_ofNat

/-- Widening a real number leaves it as it is. -/
@[simp]
theorem widening (x : ℝ) : (widen x : ℝ) = x := rfl

/-- The sine of the scalars is that of the real numbers. -/
@[simp]
theorem sine (x : ℝ) : Scalar.sin x = Real.sin x := rfl

/-- The cosine of the scalars is that of the real numbers. -/
@[simp]
theorem cosine (x : ℝ) : Scalar.cos x = Real.cos x := rfl

/-- The tangent of the scalars is that of the real numbers. -/
@[simp]
theorem tangent (x : ℝ) : Scalar.tan x = Real.tan x := rfl

/-- Every exact value is a number. -/
@[simp]
theorem is_number (x : ℝ) : Scalar.isNaN x = false := by simp [Scalar.isNaN, BEq.beq]

/-- The greater of two scalars is the maximum of the real numbers. -/
theorem greater (a b : ℝ) : Scalar.max a b = max a b := by
  rw [Scalar.max, is_number]
  split
  case isTrue less => exact (max_eq_right less.le).symm
  case isFalse notLess => exact (max_eq_left (not_lt.mp notLess)).symm

/-- A whole number is taken over as the real number that it is. -/
theorem whole (n : ℤ) : (Scalar.ofInt n : ℝ) = n := by
  have size : (Scalar.ofNat n.natAbs : ℝ) = |(n : ℝ)| := (Nat.cast_natAbs n).trans Int.cast_abs
  rw [Scalar.ofInt, size]
  split
  case isTrue negative => rw [abs_of_neg (Int.cast_lt_zero.mpr negative), neg_neg]
  case isFalse positive => rw [abs_of_nonneg (Int.cast_nonneg (not_lt.mp positive))]

/-- Exact truncation into a range, as a whole. -/
theorem truncated (low high : ℤ) (x : ℝ) : Scalar.truncateInto low high x =
    if x ≤ low then low else if high ≤ x then high else truncate x := by
  rw [Scalar.truncateInto, is_number, whole, whole]
  rfl

/-- A whole number within the ends is truncated to itself. -/
theorem truncated_whole {low high n : ℤ} (atLeast : low ≤ n) (atMost : n ≤ high) :
    Scalar.truncateInto low high (n : ℝ) = n := by
  rw [truncated]
  simp only [Int.cast_le]
  split
  case isTrue below => exact le_antisymm atLeast below
  case isFalse =>
    split
    case isTrue above => exact le_antisymm above atMost
    case isFalse => simp [truncate]

/-- What is wrapped is what is left behind the last whole turn. Cutting toward zero leaves a rest of the
sign of the quotient, which is brought up by one turn when it is below zero. -/
theorem wrapped (a : ℝ) {b : ℝ} (positive : 0 < b) : Scalar.wrap a b = Int.fract (a / b) * b := by
  set quotient := a / b with isQuotient
  have rest : Scalar.remainder a b = (quotient - truncate quotient) * b := by
    change a - b * truncate (a / b) = _
    rw [sub_mul, isQuotient, div_mul_cancel₀ a positive.ne', mul_comm b]
  rw [Scalar.wrap, rest, numeral_zero]
  change (if (quotient - truncate quotient) * b < 0 then (quotient - truncate quotient) * b + |b|
    else (quotient - truncate quotient) * b) = _
  have side : (quotient - truncate quotient) * b < 0 ↔ quotient - truncate quotient < 0 := by
    rw [mul_neg_iff, and_iff_left positive, or_iff_right fun both => both.2.not_gt positive]
  rw [abs_of_pos positive, ← add_one_mul, ← ite_mul, mul_left_inj' positive.ne', eq_comm,
    Int.fract_eq_iff]
  simp only [side]
  unfold truncate
  split
  case isTrue negative =>
    have above := Int.le_ceil quotient
    have near := Int.ceil_lt_add_one quotient
    split
    case isTrue => exact ⟨by linarith, by linarith, ⌈quotient⌉ - 1, by push_cast; ring⟩
    case isFalse reached => exact ⟨not_lt.mp reached, by linarith, ⌈quotient⌉, by ring⟩
  case isFalse =>
    have below := Int.floor_le quotient
    have near := Int.lt_floor_add_one quotient
    rw [if_neg (by linarith)]
    exact ⟨by linarith, by linarith, ⌊quotient⌋, by ring⟩

/-- The exact identity in the numbers of the reals. -/
theorem identity_numbers : (Affine.identity : Affine ℝ) = ⟨1, 0, 0, 1, 0, 0⟩ :=
  Affine.ext Nat.cast_one Nat.cast_zero Nat.cast_zero Nat.cast_one Nat.cast_zero Nat.cast_zero

/-- The exact product in the arithmetic of the reals. -/
theorem product_numbers (m n : Affine ℝ) : m * n =
    ⟨m.a * n.a + m.c * n.b, m.b * n.a + m.d * n.b, m.a * n.c + m.c * n.d,
      m.b * n.c + m.d * n.d, m.a * n.e + m.c * n.f + m.e, m.b * n.e + m.d * n.f + m.f⟩ := rfl

/-- The exact product of matrices, column by column. -/
theorem matrix_product (a b : Matrix3 ℝ) :
    a * b = ⟨a.apply b.first, a.apply b.second, a.apply b.third⟩ := rfl

/-- The exact sum of vectors. -/
theorem vector_sum (a b : Vec2 ℝ) : a + b = ⟨a.x + b.x, a.y + b.y⟩ := rfl

/-- The exact difference of vectors. -/
theorem vector_difference (a b : Vec2 ℝ) : a - b = ⟨a.x - b.x, a.y - b.y⟩ := rfl

/-- The exact opposite of a vector. -/
theorem opposite (v : Vec2 ℝ) : -v = ⟨-v.x, -v.y⟩ := rfl

/-- Exact maps are carried out one after the other, however they are grouped, and the identity does
nothing. -/
noncomputable instance : Monoid (Affine ℝ) where
  one := Affine.identity
  mul_assoc first second third := by
    simp only [product_numbers]
    ext <;> simp only <;> ring
  one_mul map := by
    change Affine.identity * map = map
    rw [identity_numbers, product_numbers]
    ext <;> simp only <;> ring
  mul_one map := by
    change map * Affine.identity = map
    rw [identity_numbers, product_numbers]
    ext <;> simp only <;> ring

end Exact

end VectorMotion
