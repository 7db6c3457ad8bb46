import VectorMotion.Proofs.Scalar.Arithmetic

/-!
# Lengths

What is needed of a scalar to lay lengths end to end. A point on a chain of lengths lies within one of
them, and what is in front of the point within that length is the rest of it. Rests are not negative
and not longer than the length that they are a rest of. In rounded arithmetic this is not a matter of
course, since the point where a length ends is rounded, and so is the rest.
-/

namespace VectorMotion

/-- The laws by which lengths are added up and rests of them are taken. -/
class Scalar.Lengthwise (S : Type) [Scalar S] : Prop extends
    Scalar.Ordered S, Scalar.Successive S where
  le_trans : ∀ {a b c : S}, a ≤ b → b ≤ c → a ≤ c
  add_nonneg : ∀ {a b : S}, 0 ≤ a → 0 ≤ b → 0 ≤ a + b
  /-- A point `c` that is not in front of a length `b`, which begins at `a`, nor behind it. -/
  rest_within : ∀ {a b c : S}, 0 ≤ a → 0 ≤ b → a < c → ¬ a + b ≤ c → 0 ≤ c - a ∧ c - a ≤ b
  sub_nonpos : ∀ {a b : S}, 0 ≤ a → a ≤ b → b ≤ 1 → a - b ≤ 0

namespace Scalar

variable {S : Type} [Scalar S] [Lengthwise S] {a b : S}

/-- What is less than a scalar is at most that scalar. -/
theorem le_of_lt (less : a < b) : a ≤ b :=
  Successive.le_of_lt_of_le less (Ordered.le_self (Ordered.numbers_of_lt less).2)

/-- Of two scalars that are numbers, one that is not at least the other is less. -/
theorem lt_of_not_le (first : isNaN a = false) (second : isNaN b = false) (notBelow : ¬ b ≤ a) :
    a < b :=
  by_contra fun notLess => notBelow (Ordered.le_of_not_lt first second notLess)

end Scalar

namespace Exact

instance : Scalar.Ordered ℝ where
  numbers_of_le _ := ⟨is_number _, is_number _⟩
  numbers_of_lt _ := ⟨is_number _, is_number _⟩
  le_self _ := le_rfl
  le_of_not_lt _ _ := not_lt.mp
  ofNat_nonneg n := by
    rw [numeral_zero]
    exact Nat.cast_nonneg n
  ofScientific_nonneg n negative exponent := by
    rw [numeral_zero]
    show 0 ≤ if negative then (n : ℝ) / 10 ^ exponent else n * 10 ^ exponent
    split <;> positivity
  neg_le_self nonneg := by
    rw [numeral_zero] at nonneg
    exact neg_le_self nonneg
  abs_number _ := by rw [is_number, is_number]
  abs_nonneg _ := by
    rw [numeral_zero]
    exact abs_nonneg _
  half_nonneg nonneg := by
    rw [numeral_zero] at nonneg ⊢
    exact div_nonneg nonneg (Nat.cast_nonneg 2)
  half_number _ := is_number _

instance : Scalar.Lengthwise ℝ where
  le_trans := le_trans
  add_nonneg first second := by
    rw [numeral_zero] at first second ⊢
    exact add_nonneg first second
  rest_within first second before within := by
    rw [numeral_zero] at first second ⊢
    exact ⟨sub_nonneg.mpr before.le, by linarith⟩
  sub_nonpos _ order _ := by
    rw [numeral_zero]
    exact sub_nonpos.mpr order

end Exact

namespace Rounded

open Float.Model Float.Model.UnpackedFloat

/-- The laws hold of a scalar that is compared, and of which sums and differences are made, by taking
its values apart. -/
theorem lengthwise_of_format {S : Type} [Scalar S] [Scalar.Ordered S] [Scalar.Successive S]
    (format : Format) (several : 1 < format.exponentBits) (value : S → UnpackedFloat)
    (kept : ∀ a : S, (value a).isFinite = true → Kept format (value a))
    (less : ∀ a b : S, a < b ↔ UnpackedFloat.lt (value a) (value b) = true)
    (below : ∀ a b : S, a ≤ b ↔ UnpackedFloat.le (value a) (value b) = true)
    (zero : value 0 = .zero .positive) (one : (value 1).isFinite = true)
    (sum : ∀ a b : S, value (a + b) =
      UnpackedFloat.unpack format
        (UnpackedFloat.pack format (UnpackedFloat.add format (value a) (value b))))
    (difference : ∀ a b : S, value (a - b) =
      UnpackedFloat.unpack format
        (UnpackedFloat.pack format (UnpackedFloat.sub format (value a) (value b)))) :
    Scalar.Lengthwise S := by
  have above (a : S) : 0 ≤ a ↔ AboveZero (value a) := by rw [below, zero, zero_below]
  exact {
    le_trans := fun {a b c} first second => by
      rw [below] at first second ⊢
      exact le_of_le_of_le first second
    add_nonneg := fun {a b} first second => by
      rw [above] at first second ⊢
      rw [sum]
      exact packed_above (sum_above (kept a) (kept b) first second)
    rest_within := fun {a b c} first second before within => by
      rw [above] at first second
      rw [less] at before
      rw [below, sum] at within
      rw [above, below, difference]
      exact Rounded.rest_within several (kept a) (kept b) (kept c) first second before within
    sub_nonpos := fun {a b} first order last => by
      rw [above] at first
      rw [below] at order last
      have finite := finite_of_le (above_of_le first order) one last
      have aFinite := finite_of_le first finite order
      rw [below, difference, zero]
      exact rest_nonpos (kept a aFinite).stored (kept b finite).stored finite first order }

/-- Doubles compare as the values that they stand for. -/
theorem double_le (a b : Float) :
    a ≤ b ↔ UnpackedFloat.le a.toModel.unpack b.toModel.unpack = true := by
  show a.le b = true ↔ _
  rw [Float.le, decide_eq_true_iff]
  rfl

/-- A finite double holds a value that the format can keep. -/
theorem double_kept {a : Float} (finite : a.toModel.unpack.isFinite = true) :
    Kept .binary64 a.toModel.unpack :=
  ⟨finite, unpack_stored _ _, unpack_fits (by decide) _⟩

instance : Scalar.Lengthwise Float :=
  lengthwise_of_format .binary64 (by decide) (fun x => x.toModel.unpack) (fun _ => double_kept)
    (fun a b => by show a.lt b = true ↔ _; rw [Float.lt, decide_eq_true_iff]; rfl) double_le
    rfl rfl (fun _ _ => rfl) (fun _ _ => rfl)

/-- A double is from zero on if the value that it stands for is. -/
theorem double_above (a : Float) : 0 ≤ a ↔ AboveZero a.toModel.unpack := by
  rw [double_le]
  exact zero_below _

/-- What leaves a number when it is taken from itself is finite. -/
theorem double_finite {a : Float} (above : AboveZero a.toModel.unpack)
    (ends : Scalar.isFinite a = true) : a.toModel.unpack.isFinite = true := by
  by_contra infinite
  have rest : (a - a).toModel.unpack = .notANumber := by
    show UnpackedFloat.unpack .binary64 (UnpackedFloat.pack .binary64
      (UnpackedFloat.sub .binary64 a.toModel.unpack a.toModel.unpack)) = _
    rw [infinite_above infinite above]
    exact unpack_packedNaN
  have number : UnpackedFloat.beq (a - a).toModel.unpack (a - a).toModel.unpack = true := by
    rw [Scalar.isFinite, Scalar.isNaN, Bool.not_not] at ends
    exact ends
  rw [rest, compare_self] at number
  cases number

/-- A length of something that has an end is a share of it. -/
theorem share_within {a b : Float} (nonneg : 0 ≤ a) (below : a ≤ b) (positive : 0 < b)
    (ends : Scalar.isFinite b = true) : 0 ≤ a / b ∧ a / b ≤ 1 := by
  have aAbove := (double_above a).mp nonneg
  have bAbove := (double_above b).mp (Scalar.le_of_lt positive)
  have bFinite := double_finite bAbove ends
  have aFinite := finite_of_le aAbove bFinite ((double_le a b).mp below)
  have quotient : (a / b).toModel.unpack =
      UnpackedFloat.unpack .binary64 (UnpackedFloat.pack .binary64
        (UnpackedFloat.div .binary64 a.toModel.unpack b.toModel.unpack)) := rfl
  have some := Scalar.Successive.not_le_of_lt positive
  rw [double_le] at below some
  rw [number_le (double_kept aFinite).stored (double_kept bFinite).stored aFinite bFinite] at below
  rw [double_above, double_le, quotient]
  obtain ⟨sign, zero⟩ | ⟨n, f, any, digits⟩ := finite_above bFinite bAbove
  · rw [zero] at some
    exact absurd rfl some
  · rw [digits] at below ⊢
    exact ⟨packed_above (quotient_above aAbove n f any),
      quotient_le_one (by decide) aFinite aAbove below (double_kept (a := 1) rfl)⟩

end Rounded

end VectorMotion
