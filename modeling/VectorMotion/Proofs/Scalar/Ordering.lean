import VectorMotion.Scalar

/-!
# The order of scalars

What the comparisons of a scalar have to do with its arithmetic, whether it is rounded or not.
Values that are numbers are in a linear order, and a value that is no number is neither below nor
above anything. Magnitudes and halves keep to the side of zero that they should be on.

Least and greatest values pass over what is no number, so that they are numbers as soon as one of
their operands is.
-/

namespace VectorMotion

open Scalar

/-- The laws of comparison. -/
class Scalar.Ordered (S : Type) [Scalar S] : Prop where
  numbers_of_le : ∀ {a b : S}, a ≤ b → isNaN a = false ∧ isNaN b = false
  numbers_of_lt : ∀ {a b : S}, a < b → isNaN a = false ∧ isNaN b = false
  le_self : ∀ {a : S}, isNaN a = false → a ≤ a
  le_of_not_lt : ∀ {a b : S}, isNaN a = false → isNaN b = false → ¬ a < b → b ≤ a
  ofNat_nonneg : ∀ n : Nat, (0 : S) ≤ Scalar.ofNat n
  ofScientific_nonneg : ∀ n negative exponent, (0 : S) ≤ Scalar.ofScientific n negative exponent
  neg_le_self : ∀ {a : S}, 0 ≤ a → -a ≤ a
  abs_number : ∀ a : S, isNaN (abs a) = isNaN a
  abs_nonneg : ∀ {a : S}, isNaN a = false → 0 ≤ abs a
  half_nonneg : ∀ {a : S}, 0 ≤ a → 0 ≤ a / 2
  half_number : ∀ {a : S}, isNaN (a / 2) = false → isNaN a = false

/-- A conversion that loses nothing keeps to the side of zero, and to what is a number. -/
class Widen.Faithful (S P : Type) [Scalar S] [Scalar P] [Widen S P] : Prop where
  number : ∀ a : S, isNaN (widen a : P) = isNaN a
  nonneg : ∀ {a : S}, 0 ≤ a → 0 ≤ (widen a : P)

namespace Scalar

variable {S : Type} [Scalar S] [Ordered S]

/-- The lesser of two values that are not below zero is not below zero itself, unless neither of
them is a number. -/
theorem min_nonneg {a b : S} (first : isNaN a = false → 0 ≤ a) (second : isNaN b = false → 0 ≤ b) :
    0 ≤ min a b ↔ isNaN a = false ∨ isNaN b = false := by
  unfold min
  split
  next less =>
    obtain ⟨bNumber, aNumber⟩ := Ordered.numbers_of_lt less
    exact iff_of_true (second bNumber) (.inl aNumber)
  next =>
    cases none : isNaN a with
    | true =>
      simp only [↓reduceIte, Bool.true_eq_false, false_or]
      exact ⟨fun above => (Ordered.numbers_of_le above).2, second⟩
    | false =>
      simp only [Bool.false_eq_true, ↓reduceIte, true_or, iff_true]
      exact first none

omit [Ordered S] in
/-- The lesser of two values is a number only if one of them is. -/
theorem number_of_min {a b : S} (number : isNaN (min a b) = false) :
    isNaN a = false ∨ isNaN b = false := by
  unfold min at number
  split at number
  · exact .inr number
  next =>
    cases none : isNaN a with
    | true => exact .inr (by simpa [none] using number)
    | false => exact .inl rfl

/-- No value that is a number is above the greater of it and another. -/
theorem le_max {a b : S} : b ≤ max a b ↔ isNaN b = false := by
  refine ⟨fun below => (Ordered.numbers_of_le below).1, fun number => ?_⟩
  unfold max
  split
  · exact Ordered.le_self number
  next notLess =>
    cases none : isNaN a with
    | true => exact Ordered.le_self number
    | false => exact Ordered.le_of_not_lt none number notLess

/-! ## Clamps that refuse -/

/-- A value moved to the nearer end of a range, if there is such a range: its ends have to be numbers
in order. -/
def clamp? {S : Type} [Scalar S] (x low high : S) : Option S :=
  if low ≤ high then some (clamp x low high) else none

omit [Ordered S] in
/-- Keeping a scalar between two bounds does not fail if the bounds are in order. -/
theorem clamp_ordered {low high : S} (ordered : low ≤ high) (x : S) :
    clamp? x low high = some (clamp x low high) := if_pos ordered

/-- A fraction can be kept between zero and one. -/
theorem clamp_fraction (x : S) : clamp? x 0 1 = some (clamp x 0 1) :=
  clamp_ordered (Ordered.ofNat_nonneg 1) x

/-- A value can be kept within a distance from zero. -/
theorem clamp_distance {reach : S} (nonneg : 0 ≤ reach) (x : S) :
    clamp? x (-reach) reach = some (clamp x (-reach) reach) :=
  clamp_ordered (Ordered.neg_le_self nonneg) x

end Scalar

end VectorMotion
