import Mathlib
import VectorMotion.Proofs.Scalar.Succession

/-!
# What rounded values stand for

A finite value stands for a number: its digits, with a sign, times a power of two. Values are stored
with as many digits as there is room for, and this makes their order the order of numbers. Whole
numbers of up to 24 digits are exact in single precision. So is rounding up, and so is cutting off what
is behind the point, if there is nothing there.
-/

namespace VectorMotion

namespace Rounded

open Float.Model Float.Model.UnpackedFloat

/-- The number that a finite value stands for. -/
noncomputable def number : UnpackedFloat → ℝ
  | .finite sign mantissa exponent _ => (sign.apply mantissa : ℤ) * 2 ^ exponent
  | _ => 0

/-- Finite values are stored with as many digits as there is room for, or with the least exponent. -/
def Stored (format : Format) : UnpackedFloat → Prop
  | .finite _ mantissa exponent _ =>
    mantissa < 2 ^ format.mantissaBits ∧ format.minExponent ≤ exponent ∧
      (format.minExponent < exponent → 2 ^ format.mantissaBitsWithoutImplicit ≤ mantissa)
  | _ => True

/-- The least exponent of a format, by its bias and the digits of its mantissa. -/
theorem least_exponent (format : Format) : format.minExponent =
    1 - ((format.exponentBias : ℤ) + format.mantissaBitsWithoutImplicit) := by
  have halves : 1 ≤ 2 ^ (format.exponentBits - 1) := Nat.one_le_two_pow
  simp only [Format.minExponent, Format.exponentBias, Format.mantissaBits]
  push_cast [halves]
  ring

/-- The hidden digit in front of the others. -/
theorem hidden_digit {n : ℕ} (digits : BitVec n) : (1#1 ++ digits).toNat = 2 ^ n + digits.toNat := by
  rw [BitVec.toNat_append, ← Nat.shiftLeft_add_eq_or_of_lt digits.isLt, Nat.shiftLeft_eq]
  simp

/-- What is read from bits is a value as the format stores it. -/
theorem unpack_stored (format : Format) (bits : BitVec format.numBits) :
    Stored format (UnpackedFloat.unpack format bits) := by
  have digits := (unpackMantissa bits).isLt
  have least := least_exponent format
  have room : 2 ^ format.mantissaBits = 2 * 2 ^ format.mantissaBitsWithoutImplicit := by
    rw [Format.mantissaBits, pow_add, pow_one]
  rw [UnpackedFloat.unpack]
  split
  · split <;> trivial
  split
  next zero =>
    rw [zero]
    split
    · trivial
    · refine ⟨?_, ?_, ?_⟩
      · omega
      · simp only [BitVec.toNat_zero]; omega
      · simp only [BitVec.toNat_zero]; omega
  next _ normal =>
    have field : (unpackExponent bits).toNat ≠ 0 := fun same => normal (BitVec.eq_of_toNat_eq same)
    refine ⟨?_, ?_, fun _ => ?_⟩
    · rw [hidden_digit]
      omega
    · omega
    · rw [hidden_digit]
      omega

/-- A value is put together and taken apart again without loss if it has all its digits. -/
theorem unpack_pack {format : Format} (sign : Sign) {mantissa : ℕ} {exponent : ℤ}
    (positive : 0 < mantissa) (digits : mantissa.log2 = format.mantissaBitsWithoutImplicit)
    (above : format.minExponent ≤ exponent)
    (below : exponent + format.exponentBias + format.mantissaBitsWithoutImplicit + 1
      < 2 ^ format.exponentBits) :
    UnpackedFloat.unpack format
        (UnpackedFloat.pack format (.finite sign mantissa exponent positive)) =
      .finite sign mantissa exponent positive := by
  have least := least_exponent format
  obtain ⟨field, isField⟩ : ∃ field : ℕ,
      exponent + format.exponentBias + format.mantissaBitsWithoutImplicit = field :=
    Int.eq_ofNat_of_zero_le (by omega)
  have fits : field + 1 < 2 ^ format.exponentBits := by
    rw [isField] at below
    exact_mod_cast below
  have stored : (BitVec.ofNat format.exponentBits field).toNat = field :=
    (BitVec.toNat_ofNat _ _).trans (Nat.mod_eq_of_lt (by omega))
  have hidden : (1#1 ++ BitVec.ofNat format.mantissaBitsWithoutImplicit mantissa).toNat =
      mantissa := by
    obtain ⟨atLeast, atMost⟩ := (Nat.log2_eq_iff positive.ne').mp digits
    rw [hidden_digit, BitVec.toNat_ofNat, Nat.mod_eq_sub_mod atLeast, Nat.mod_eq_of_lt] <;>
      rw [pow_succ] at atMost <;> omega
  rw [UnpackedFloat.pack, isField, Int.toNat_natCast, if_neg (by omega),
    if_pos (by rw [digits, Format.mantissaBits, add_comm]), UnpackedFloat.unpack]
  simp only [unpackMantissa_packComponents, unpackExponent_packComponents,
    unpackSign_packComponents, Sign.ofBitVec_toBitVec]
  have notMost : ¬ BitVec.ofNat format.exponentBits field = -1#_ := fun same => by
    have numbers := congrArg BitVec.toNat same
    rw [stored, BitVec.neg_one_eq_allOnes, BitVec.toNat_allOnes] at numbers
    omega
  have notLeast : ¬ BitVec.ofNat format.exponentBits field = 0#_ := fun same => by
    have numbers := congrArg BitVec.toNat same
    rw [stored, BitVec.toNat_zero] at numbers
    omega
  rw [if_neg notMost, if_neg notLeast]
  simp only [hidden, stored]
  congr 1
  omega

/-- A positive number that is shifted has as many more binary digits. -/
theorem log2_shifted {n : ℕ} (positive : 0 < n) (places : ℕ) :
    (n <<< places).log2 = n.log2 + places := by
  have atLeast := Nat.log2_self_le positive.ne'
  have atMost : n < 2 ^ (n.log2 + 1) := Nat.lt_log2_self
  have scale : 0 < 2 ^ places := Nat.two_pow_pos places
  rw [Nat.shiftLeft_eq, Nat.log2_eq_iff (Nat.mul_pos positive scale).ne']
  rw [show n.log2 + places + 1 = n.log2 + 1 + places by omega, pow_add, pow_add _ (_ + 1)]
  exact ⟨Nat.mul_le_mul_right _ atLeast, Nat.mul_lt_mul_of_pos_right atMost scale⟩

/-- Digits that are in their place are not moved. -/
theorem shift_nothing (format : Format) {mantissa : ℕ} {exponent : ℤ}
    (inPlace : format.targetExponent (totalExponent mantissa exponent) ≤ exponent) :
    shiftToTargetExponent format mantissa exponent .exact = (⟨mantissa, false, false⟩, exponent) := by
  rw [shiftToTargetExponent, shiftToExponent, Int.toNat_of_nonpos (by omega)]
  simp only [ExtendedMantissa.ofMantissaAndAccuracy, Nat.cast_zero, add_zero]
  rfl

/-- Rounding moves the digits of a value that has room for them to where they belong. -/
theorem round_exact (format : Format) (sign : Sign) {mantissa places : ℕ} {exponent target : ℤ}
    (positive : 0 < mantissa) (moved : target + places = exponent)
    (place : format.targetExponent (totalExponent mantissa exponent) = target) :
    ∃ positive, UnpackedFloat.round format sign mantissa exponent =
      .finite sign (mantissa <<< places) target positive := by
  subst moved
  have kept : totalExponent (mantissa <<< places) target =
      totalExponent mantissa (target + places) := by
    rw [totalExponent, totalExponent, log2_shifted positive]
    push_cast
    ring
  have inPlace := shift_nothing format ((congrArg format.targetExponent kept).trans place).le
  have digits : 0 < mantissa <<< places := by
    rw [Nat.shiftLeft_eq]
    positivity
  refine ⟨digits, ?_⟩
  simp only [UnpackedFloat.round, decreaseExponent, place, add_sub_cancel_left, Int.toNat_natCast,
    add_sub_cancel_right, roundWithAccuracy, inPlace, ExtendedMantissa.roundedMantissa,
    ExtendedMantissa.accuracy, Accuracy.roundToNearestEven]
  exact dif_neg digits.ne'

/-- Whole numbers of at most 24 digits are exact in single precision. -/
theorem whole_exact (sign : Sign) {size : ℕ} (positive : 0 < size) (fits : size < 2 ^ 24) :
    ∃ positive, (Single.whole sign size).toModel.unpack =
      .finite sign (size <<< (23 - size.log2)) (size.log2 - 23) positive := by
  have log : size.log2 < 24 := (Nat.log2_lt positive.ne').mpr fits
  have least : Format.binary32.minExponent = -149 := by decide
  have bias : Format.binary32.exponentBias = 127 := by decide
  have place : Format.binary32.targetExponent (totalExponent size 0) = size.log2 - 23 := by
    have digits : Format.binary32.mantissaBits = 24 := rfl
    rw [Format.targetExponent, totalExponent, least, digits]
    omega
  have moved : (size.log2 - 23 : ℤ) + (23 - size.log2 : ℕ) = 0 := by omega
  obtain ⟨digits, rounded⟩ := round_exact .binary32 sign positive moved place
  refine ⟨digits, ?_⟩
  rw [Single.whole]
  change UnpackedFloat.unpack .binary32 (UnpackedFloat.pack .binary32 _) = _
  rw [rounded]
  apply unpack_pack
  · rw [log2_shifted positive]
    show _ = 23
    omega
  · omega
  · rw [bias]
    change (size.log2 : ℤ) - 23 + 127 + 23 + 1 < 2 ^ 8
    omega

/-- Of two positive values the one with the greater exponent is greater, or else the one with the
greater digits. -/
theorem digits_lt {format : Format} {m n : ℕ} {e f : ℤ} {some : 0 < m} {any : 0 < n}
    {sign other : Sign} (less : Stored format (.finite sign m e some))
    (more : Stored format (.finite other n f any))
    (before : e < f ∨ e = f ∧ m < n) : (m : ℝ) * 2 ^ e < n * 2 ^ f := by
  obtain ⟨fits, atLeast, -⟩ := less
  obtain ⟨-, -, full⟩ := more
  obtain before | ⟨rfl, before⟩ := before
  · have digits : m < 2 * n := by
      have full := full (atLeast.trans_lt before)
      rw [Format.mantissaBits, pow_add] at fits
      omega
    calc (m : ℝ) * 2 ^ e < 2 * n * 2 ^ e := by gcongr; exact_mod_cast digits
      _ = n * 2 ^ (e + 1) := by rw [zpow_add_one₀ two_ne_zero]; ring
      _ ≤ n * 2 ^ f := by gcongr; norm_num; omega
  · gcongr

/-- Of two finite values, the less one stands for the less number. -/
theorem number_lt {format : Format} {a b : UnpackedFloat} (first : Stored format a)
    (second : Stored format b) (some : a.isFinite = true) (any : b.isFinite = true)
    (less : UnpackedFloat.lt a b = true) : number a < number b := by
  have unit (e : ℤ) : (0 : ℝ) < 2 ^ e := by positivity
  rw [lt_places] at less
  cases a with
  | notANumber | infinity => simp [UnpackedFloat.isFinite] at some
  | zero =>
    cases b with
    | notANumber | infinity => simp [UnpackedFloat.isFinite] at any
    | zero => simp [place?] at less
    | finite sign m e positive =>
      cases sign <;> simp_all [place?, number, Sign.apply, Prod.Lex.toLex_lt_toLex]
  | finite sign m e positive =>
    cases b with
    | notANumber | infinity => simp [UnpackedFloat.isFinite] at any
    | zero =>
      cases sign <;> simp_all [place?, number, Sign.apply, Prod.Lex.toLex_lt_toLex]
    | finite other n f also =>
      cases sign <;> cases other <;>
        simp only [place?, number, Sign.apply, Prod.Lex.toLex_lt_toLex, Option.mem_def,
          Option.some.injEq, exists_eq_left', Int.cast_neg, Int.cast_natCast, neg_mul,
          neg_lt_neg_iff] at less ⊢
      · exact digits_lt second first (by omega)
      · exact (neg_neg_of_pos (by positivity)).trans (by positivity)
      · omega
      · exact digits_lt first second (by omega)

/-- Finite values are in the order of the numbers that they stand for. -/
theorem number_le {format : Format} {a b : UnpackedFloat} (first : Stored format a)
    (second : Stored format b) (some : a.isFinite = true) (any : b.isFinite = true) :
    UnpackedFloat.le a b = true ↔ number a ≤ number b := by
  have signed {value : UnpackedFloat} (finite : value.isFinite = true) :
      (sign? value).isSome = true := by
    cases value <;> simp_all [UnpackedFloat.isFinite, sign?]
  constructor
  · intro below
    by_cases less : UnpackedFloat.lt a b = true
    · exact (number_lt first second some any less).le
    · have same : UnpackedFloat.beq a b = true := by
        simp only [UnpackedFloat.le, UnpackedFloat.lt, UnpackedFloat.beq, beq_iff_eq] at below less ⊢
        obtain ⟨order, compared, below⟩ := (Option.any_eq_true _ _).mp below
        cases order <;> simp_all
      obtain ⟨-, -, rfl | ⟨rfl, rfl⟩ | ⟨rfl, rfl⟩⟩ := (beq_iff_ne_notANumber_and_eq a b).mp same
      all_goals rfl
  · intro below
    by_contra notBelow
    exact absurd below (not_le.mpr (number_lt second first any some
      (by_contra fun notLess => notBelow (le_of_not_less (signed any) (signed some) notLess))))

/-- Digits behind the point are dropped. -/
theorem shifted_mantissa (digits : ExtendedMantissa) (places : ℕ) :
    (digits >>> places).mantissa = digits.mantissa / 2 ^ places := by
  induction places with
  | zero => exact (Nat.div_one _).symm
  | succ places inductionHypothesis =>
    rw [pow_succ, ← Nat.div_div_eq_div_mul, ← inductionHypothesis]
    rfl

/-- The integer part of a value. -/
theorem integer_part (sign : Sign) (mantissa : ℕ) (exponent : ℤ) :
    roundToInt sign mantissa exponent =
      sign.apply (mantissa * 2 ^ exponent.toNat / 2 ^ (-exponent).toNat : ℕ) := by
  simp only [roundToInt, decreaseExponent, shiftToExponent, shifted_mantissa,
    ExtendedMantissa.ofMantissaAndAccuracy, Nat.shiftLeft_eq, sub_zero]
  congr 4
  omega

/-- The integer part of a value that is not below zero is neither below zero nor above the value. -/
theorem integer_part_within (mantissa : ℕ) (exponent : ℤ) :
    0 ≤ roundToInt .positive mantissa exponent ∧
      (roundToInt .positive mantissa exponent : ℝ) ≤ mantissa * 2 ^ exponent := by
  rw [integer_part, Sign.apply]
  refine ⟨Int.natCast_nonneg _, ?_⟩
  obtain ⟨places, rfl | rfl⟩ := exponent.eq_nat_or_neg
  · simp
  · rw [Int.toNat_neg_natCast, neg_neg, Int.toNat_natCast, pow_zero, mul_one, Int.cast_natCast, zpow_neg,
      zpow_natCast, ← div_eq_mul_inv]
    exact_mod_cast Nat.cast_div_le (α := ℝ) (m := mantissa) (n := 2 ^ places)

/-- A whole number is its own integer part. -/
theorem integer_part_whole {sign : Sign} {mantissa : ℕ} {exponent n : ℤ}
    (whole : ((sign.apply mantissa : ℤ) : ℝ) * 2 ^ exponent = n) :
    roundToInt sign mantissa exponent = n := by
  rw [integer_part]
  obtain ⟨places, rfl | rfl⟩ := exponent.eq_nat_or_neg
  · rw [zpow_natCast] at whole
    simp only [Int.toNat_natCast, Int.toNat_neg_natCast, pow_zero, Nat.div_one]
    have : sign.apply mantissa * 2 ^ places = n := by exact_mod_cast whole
    rw [← this]
    cases sign <;> simp [Sign.apply]
  · rw [zpow_neg, zpow_natCast, ← div_eq_mul_inv, div_eq_iff (by positivity)] at whole
    have : sign.apply mantissa = n * 2 ^ places := by exact_mod_cast whole
    simp only [Int.toNat_neg_natCast, neg_neg, Int.toNat_natCast, pow_zero, mul_one]
    cases sign with
    | positive =>
      simp only [Sign.apply] at this ⊢
      push_cast
      rw [this, Int.mul_ediv_cancel _ (by positivity)]
    | negative =>
      simp only [Sign.apply] at this ⊢
      push_cast
      rw [show (mantissa : ℤ) = -n * 2 ^ places by linarith, Int.mul_ediv_cancel _ (by positivity),
        neg_neg]

end Rounded

namespace Single

open Float.Model Float.Model.UnpackedFloat

/-- The number that a finite value stands for. -/
noncomputable def number (x : Float32) : ℝ := Rounded.number x.toModel.unpack

variable {x y : Float32}

/-- A single holds a value as its format stores it. -/
theorem stored (x : Float32) : Rounded.Stored .binary32 x.toModel.unpack := Rounded.unpack_stored _ _

/-- Singles compare as the values that they stand for. -/
theorem le_iff (x y : Float32) :
    x ≤ y ↔ UnpackedFloat.le x.toModel.unpack y.toModel.unpack = true := by
  show x.le y = true ↔ _
  rw [Float32.le, decide_eq_true_iff]
  rfl

/-- Finite singles compare as the numbers that they stand for. -/
theorem le_number (some : x.toModel.unpack.isFinite = true) (any : y.toModel.unpack.isFinite = true) :
    x ≤ y ↔ number x ≤ number y := by
  rw [le_iff, number, number, Rounded.number_le (stored x) (stored y) some any]

/-- What is left of a whole number is the number. -/
theorem truncate_whole (finite : x.toModel.unpack.isFinite = true) {n : ℤ} (whole : number x = n)
    (atLeast : -2 ^ 63 ≤ n) (below : n < 2 ^ 63) : truncate x = n := by
  have integer : x.toModel.unpack.toInt Int64.minValue.toInt Int64.maxValue.toInt = n := by
    rw [number] at whole
    cases value : x.toModel.unpack with
    | notANumber | infinity => simp [value, UnpackedFloat.isFinite] at finite
    | zero => simpa [value, UnpackedFloat.toInt, Rounded.number, eq_comm] using whole
    | finite sign mantissa exponent =>
      rw [value] at whole
      exact Rounded.integer_part_whole whole
  rw [truncate, Float32.Model.toInt64, UnpackedFloat.toInt64, integer]
  exact Int64.toInt_ofIntClamp atLeast (Int.le_of_lt_add_one below)

/-- What is left of a value between zero and a whole number is between them. -/
theorem truncate_within (finite : x.toModel.unpack.isFinite = true) (nonneg : 0 ≤ number x) {n : ℤ}
    (atMost : number x ≤ n) (below : n < 2 ^ 63) : 0 ≤ truncate x ∧ truncate x ≤ n := by
  have positive : 0 ≤ n := by exact_mod_cast nonneg.trans atMost
  rw [number] at nonneg atMost
  rw [truncate, Float32.Model.toInt64, UnpackedFloat.toInt64]
  cases value : x.toModel.unpack with
  | notANumber | infinity => simp [value, UnpackedFloat.isFinite] at finite
  | zero => exact ⟨le_rfl, positive⟩
  | finite sign mantissa exponent some =>
    rw [value] at nonneg atMost
    cases sign with
    | negative =>
      have less : Rounded.number (.finite .negative mantissa exponent some) < 0 := by
        simp [Rounded.number, Sign.apply]
        positivity
      exact absurd nonneg less.not_ge
    | positive =>
      obtain ⟨atLeast, within⟩ := Rounded.integer_part_within mantissa exponent
      have upper : roundToInt .positive mantissa exponent ≤ n := by
        exact_mod_cast within.trans atMost
      rw [UnpackedFloat.toInt, Int64.toInt_ofIntClamp (le_trans (by decide) atLeast)
        (Int.le_of_lt_add_one (upper.trans_lt below))]
      exact ⟨atLeast, upper⟩

/-- Whole numbers of at most 24 digits are exact. -/
theorem whole_number (sign : Sign) {size : ℕ} (fits : size < 2 ^ 24) :
    (whole sign size).toModel.unpack.isFinite = true ∧
      number (whole sign size) = (sign.apply size : ℤ) := by
  rw [number]
  obtain rfl | positive := size.eq_zero_or_pos
  · have zero : (whole sign 0).toModel.unpack = .zero sign := by cases sign <;> rfl
    rw [zero]
    cases sign <;> simp [UnpackedFloat.isFinite, Rounded.number, Sign.apply]
  · obtain ⟨digits, exact⟩ := Rounded.whole_exact sign positive fits
    have log : size.log2 ≤ 23 := Nat.le_of_lt_succ ((Nat.log2_lt positive.ne').mpr fits)
    have unit : (2 : ℝ) ^ (23 - size.log2) * 2 ^ ((size.log2 : ℤ) - 23) = 1 := by
      rw [← zpow_natCast, ← zpow_add₀ two_ne_zero, Nat.cast_sub log]
      norm_num
    rw [exact]
    refine ⟨rfl, ?_⟩
    rw [Rounded.number, Nat.shiftLeft_eq]
    cases sign <;> simp [Sign.apply, mul_assoc, unit]

/-- Rounded up, a quotient of natural numbers is one as well. -/
theorem ceil_quotient (m : ℕ) {unit : ℕ} (positive : 0 < unit) :
    ⌈(m : ℝ) / unit⌉ = ((m + unit - 1) / unit : ℕ) := by
  have scale : (0 : ℝ) < unit := by exact_mod_cast positive
  have parts := Nat.div_add_mod (m + unit - 1) unit
  have rest := Nat.mod_lt (m + unit - 1) positive
  set quotient := (m + unit - 1) / unit
  have above : m ≤ quotient * unit := by
    rw [mul_comm]
    omega
  have below : quotient * unit < m + unit := by
    rw [mul_comm]
    omega
  rw [Int.ceil_eq_iff, div_le_iff₀ scale, lt_div_iff₀ scale]
  constructor
  · have : (quotient * unit : ℝ) < m + unit := by exact_mod_cast below
    push_cast
    linarith
  · exact_mod_cast above

/-- What a value is rounded up to is a number again, the least whole one that is not below. -/
theorem ceil_number (finite : x.toModel.unpack.isFinite = true) :
    (ceil x).toModel.unpack.isFinite = true ∧ number (ceil x) = ⌈number x⌉ := by
  cases value : x.toModel.unpack with
  | notANumber | infinity => simp [value, UnpackedFloat.isFinite] at finite
  | zero sign =>
    have kept : ceil x = x := by rw [ceil, value]
    rw [kept, number, value]
    exact ⟨rfl, by simp [Rounded.number]⟩
  | finite sign mantissa exponent positive =>
    have amount : number x = (sign.apply mantissa : ℤ) * 2 ^ exponent := by
      rw [number, value, Rounded.number]
    obtain ⟨fits, -⟩ : Rounded.Stored .binary32 (.finite sign mantissa exponent positive) :=
      value ▸ stored x
    change mantissa < 2 ^ 24 at fits
    by_cases integral : 0 ≤ exponent
    · have kept : ceil x = x := by
        rw [ceil, value]
        exact if_pos integral
      obtain ⟨places, rfl⟩ := Int.eq_ofNat_of_zero_le integral
      rw [kept, amount, zpow_natCast]
      refine ⟨finite, ?_⟩
      exact_mod_cast (Int.ceil_intCast (R := ℝ) (sign.apply mantissa * 2 ^ places)).symm
    · obtain ⟨places, rfl⟩ : ∃ places : ℕ, exponent = -places :=
        ⟨exponent.natAbs, by omega⟩
      have unit : 0 < 2 ^ places := Nat.two_pow_pos places
      rw [amount, zpow_neg, zpow_natCast, ← div_eq_mul_inv]
      cases sign with
      | negative =>
        have rounded : ceil x = whole .negative (mantissa / 2 ^ places) := by
          rw [ceil, value]
          dsimp only
          rw [if_neg integral, Int.natAbs_neg, Int.natAbs_natCast]
          rfl
        obtain ⟨finite, same⟩ := whole_number .negative ((Nat.div_le_self _ (2 ^ places)).trans_lt fits)
        refine rounded ▸ ⟨finite, same.trans ?_⟩
        simp only [Sign.apply, Int.cast_neg, Int.cast_natCast, neg_div, Int.ceil_neg, neg_inj]
        have floor := Int.floor_div_natCast (mantissa : ℝ) (2 ^ places)
        rw [Int.floor_natCast] at floor
        push_cast at floor
        rw [floor]
        norm_cast
      | positive =>
        have rounded : ceil x = whole .positive ((mantissa + 2 ^ places - 1) / 2 ^ places) := by
          rw [ceil, value]
          dsimp only
          rw [if_neg integral, Int.natAbs_neg, Int.natAbs_natCast]
          rfl
        have few : (mantissa + 2 ^ places - 1) / 2 ^ places < 2 ^ 24 := by
          rw [Nat.div_lt_iff_lt_mul unit]
          exact (Nat.add_sub_one_le_mul positive.ne' unit.ne').trans_lt
            (Nat.mul_lt_mul_of_pos_right fits unit)
        obtain ⟨finite, same⟩ := whole_number .positive few
        refine rounded ▸ ⟨finite, same.trans ?_⟩
        have up := ceil_quotient mantissa unit
        simp only [Sign.apply, Int.cast_natCast]
        push_cast at up
        rw [up]
        norm_cast

/-- A value is not a number if it stands for nothing. -/
theorem is_nan (x : Float32) : Scalar.isNaN x = !(Rounded.sign? x.toModel.unpack).isSome := by
  rw [← Rounded.compare_self]
  rfl

end Single

end VectorMotion
