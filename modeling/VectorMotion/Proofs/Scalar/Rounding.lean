import VectorMotion.Proofs.Scalar.Values

/-!
# What rounding does not pass

A number is rounded by moving its digits to where there is room for them and by dropping the rest. If
the number is not above a value that can be stored, then the rounded one is not above it either.

Digits, with what has been dropped of them, are compared with whole numbers, and a stored value is a
whole number at every place that is not above its own.
-/

namespace VectorMotion.Rounded

open Float.Model Float.Model.UnpackedFloat

variable {format : Format}

section Digits

/-- Digits that are not above a whole number, together with what has been dropped behind them. -/
def Within (digits : ExtendedMantissa) (bound : ℕ) : Prop :=
  digits.mantissa < bound ∨
    digits.mantissa = bound ∧ digits.roundBit = false ∧ digits.stickyBit = false

/-- Dropping one digit halves the bound. -/
theorem Within.shifted_once {digits : ExtendedMantissa} {bound : ℕ}
    (within : Within digits (2 * bound)) : Within digits.shiftRightOne bound := by
  obtain less | ⟨same, noRound, noSticky⟩ := within
  · left
    show digits.mantissa / 2 < bound
    omega
  · right
    refine ⟨?_, ?_, ?_⟩
    · show digits.mantissa / 2 = bound
      omega
    · simp [ExtendedMantissa.shiftRightOne, same]
    · simp [ExtendedMantissa.shiftRightOne, noRound, noSticky]

/-- Dropping several digits divides the bound by that power of two. -/
theorem Within.shifted {digits : ExtendedMantissa} {bound places : ℕ}
    (within : Within digits (2 ^ places * bound)) : Within (digits >>> places) bound := by
  induction places generalizing bound with
  | zero => rwa [pow_zero, one_mul] at within
  | succ places inductionHypothesis =>
    rw [pow_succ, mul_assoc] at within
    exact (inductionHypothesis within).shifted_once

/-- What has been dropped is less than one, so digits below a bound are rounded up to it at most. -/
theorem Within.rounded {digits : ExtendedMantissa} {bound : ℕ} (within : Within digits bound) :
    digits.roundedMantissa ≤ bound := by
  obtain ⟨mantissa, roundBit, stickyBit⟩ := digits
  obtain less | ⟨rfl, rfl, rfl⟩ := within
  · cases roundBit <;> cases stickyBit <;>
      simp only [ExtendedMantissa.roundedMantissa, ExtendedMantissa.accuracy,
        Accuracy.roundToNearestEven] at less ⊢ <;> omega
  · exact le_rfl

/-- Rounding a mantissa does not make it less. -/
theorem mantissa_le_rounded (digits : ExtendedMantissa) :
    digits.mantissa ≤ digits.roundedMantissa := by
  obtain ⟨mantissa, roundBit, stickyBit⟩ := digits
  cases roundBit <;> cases stickyBit <;>
    simp only [ExtendedMantissa.roundedMantissa, ExtendedMantissa.accuracy,
      Accuracy.roundToNearestEven] <;> omega

/-- Digits that are moved up stand for the same number, at an exponent that is less. -/
theorem moved_up (mantissa places : ℕ) (exponent : ℤ) :
    ((mantissa <<< places : ℕ) : ℝ) * 2 ^ (exponent - places) = mantissa * 2 ^ exponent := by
  rw [Nat.shiftLeft_eq, zpow_sub₀ two_ne_zero, zpow_natCast]
  push_cast
  field_simp

/-- Digits are moved up to an exponent at which others are. -/
theorem aligned (mantissa : ℕ) {exponent place : ℤ} (lower : place ≤ exponent) :
    ((decreaseExponent mantissa exponent place).1 : ℝ) * 2 ^ place = mantissa * 2 ^ exponent := by
  have same := moved_up mantissa (exponent - place).toNat exponent
  rwa [Int.toNat_of_nonneg (by omega), sub_sub_cancel] at same

/-- Numbers at different exponents are compared as whole numbers at the lesser exponent. A place
between the two splits the power. -/
theorem digits_below {mantissa bound : ℕ} {exponent place most : ℤ} (lower : exponent ≤ place)
    (upper : place ≤ most) (below : (mantissa : ℝ) * 2 ^ exponent ≤ bound * 2 ^ most) :
    mantissa ≤ 2 ^ (place - exponent).toNat * (bound * 2 ^ (most - place).toNat) := by
  obtain ⟨shift, rfl⟩ := Int.le.dest lower
  obtain ⟨rest, rfl⟩ := Int.le.dest upper
  rw [zpow_add₀ two_ne_zero, zpow_add₀ two_ne_zero, zpow_natCast, zpow_natCast, mul_assoc,
    mul_comm ((2 : ℝ) ^ exponent), ← mul_assoc, mul_le_mul_iff_left₀ (by positivity)] at below
  rw [add_sub_cancel_left, add_sub_cancel_left, Int.toNat_natCast, Int.toNat_natCast, mul_left_comm]
  exact_mod_cast below

end Digits

section Places

/-- The exponent at which digits have room, by their number. -/
theorem target_exponent (mantissa : ℕ) (exponent : ℤ) :
    format.targetExponent (totalExponent mantissa exponent) =
      max (mantissa.log2 + exponent - format.mantissaBitsWithoutImplicit) format.minExponent := by
  rw [Format.targetExponent, totalExponent, Format.mantissaBits]
  push_cast
  congr 1
  ring

/-- Rounding up may take one digit more than there is room for. It is a zero then, and is dropped
without loss. -/
theorem placed_digits {digits : ℕ} {place : ℤ} (few : digits ≤ 2 ^ format.mantissaBits)
    (least : format.minExponent ≤ place)
    (full : format.minExponent < place → 2 ^ format.mantissaBitsWithoutImplicit ≤ digits) :
    ∃ mantissa exponent,
      shiftToTargetExponent format digits place .exact = (⟨mantissa, false, false⟩, exponent) ∧
      (mantissa : ℝ) * 2 ^ exponent = digits * 2 ^ place ∧
      mantissa < 2 ^ format.mantissaBits ∧ format.minExponent ≤ exponent ∧
      (format.minExponent < exponent → 2 ^ format.mantissaBitsWithoutImplicit ≤ mantissa) := by
  obtain less | rfl := few.lt_or_eq
  · have log : digits.log2 ≤ format.mantissaBitsWithoutImplicit := by
      obtain rfl | positive := digits.eq_zero_or_pos
      · exact Nat.zero_le _
      · rw [Format.mantissaBits, add_comm, ← Nat.log2_lt positive.ne'] at less
        omega
    have inPlace : format.targetExponent (totalExponent digits place) ≤ place := by
      rw [target_exponent]
      omega
    exact ⟨digits, place, shift_nothing format inPlace, rfl, less, least, full⟩
  · have target : format.targetExponent (totalExponent (2 ^ format.mantissaBits) place) =
        place + 1 := by
      rw [target_exponent, Nat.log2_two_pow, Format.mantissaBits]
      push_cast
      omega
    have double : 2 ^ format.mantissaBits = 2 * 2 ^ format.mantissaBitsWithoutImplicit := by
      rw [Format.mantissaBits, pow_add, pow_one]
    refine ⟨2 ^ format.mantissaBitsWithoutImplicit, place + 1, ?_, ?_, ?_, by omega,
      fun _ => le_rfl⟩
    · rw [shiftToTargetExponent, target, shiftToExponent, add_sub_cancel_left, Int.toNat_one,
        Nat.cast_one, Prod.mk.injEq]
      refine ⟨?_, rfl⟩
      show ExtendedMantissa.shiftRightOne ⟨2 ^ format.mantissaBits, false, false⟩ = _
      rw [ExtendedMantissa.shiftRightOne, double]
      simp
    · rw [double, zpow_add_one₀ two_ne_zero]
      push_cast
      ring
    · rw [double]
      have := Nat.two_pow_pos format.mantissaBitsWithoutImplicit
      omega

/-- Digits are moved up before they are rounded, as far as there is room for them. -/
theorem round_moved (format : Format) (sign : Sign) {mantissa : ℕ} (exponent : ℤ) (positive : 0 < mantissa) :
    ∃ digits place, UnpackedFloat.round format sign mantissa exponent =
        roundWithAccuracy format sign digits place .exact ∧ 0 < digits ∧
      place ≤ format.targetExponent (totalExponent digits place) ∧
      (digits : ℝ) * 2 ^ place = mantissa * 2 ^ exponent := by
  set places := (exponent - format.targetExponent (totalExponent mantissa exponent)).toNat
    with isPlaces
  have same : totalExponent (mantissa <<< places) (exponent - places) =
      totalExponent mantissa exponent := by
    rw [totalExponent, totalExponent, log2_shifted positive]
    push_cast
    ring
  refine ⟨mantissa <<< places, exponent - places, rfl, Nat.shiftLeft_pos_iff.mpr positive, ?_,
    moved_up mantissa places exponent⟩
  rw [same]
  omega

/-- A stored value has its digits where there is room for everything that is not above it. -/
theorem place_le {mantissa bound : ℕ} {exponent most : ℤ} {sign : Sign} {some : 0 < bound}
    (positive : 0 < mantissa) (stored : Stored format (.finite sign bound most some))
    (below : (mantissa : ℝ) * 2 ^ exponent ≤ bound * 2 ^ most) :
    format.targetExponent (totalExponent mantissa exponent) ≤ most := by
  obtain ⟨few, least, -⟩ := stored
  rw [target_exponent]
  by_contra above
  have more : (bound : ℝ) * 2 ^ most < mantissa * 2 ^ exponent :=
    calc (bound : ℝ) * 2 ^ most < 2 ^ format.mantissaBits * 2 ^ most := by
          gcongr
          exact_mod_cast few
      _ = 2 ^ ((format.mantissaBits : ℤ) + most) := by rw [zpow_add₀ two_ne_zero, zpow_natCast]
      _ ≤ 2 ^ ((mantissa.log2 : ℤ) + exponent) := by
          refine zpow_le_zpow_right₀ one_le_two ?_
          rw [Format.mantissaBits]
          push_cast
          omega
      _ = 2 ^ mantissa.log2 * 2 ^ exponent := by rw [zpow_add₀ two_ne_zero, zpow_natCast]
      _ ≤ mantissa * 2 ^ exponent := by
          gcongr
          exact_mod_cast Nat.log2_self_le positive.ne'
  exact absurd below (not_le.mpr more)

/-- The mantissa that the digits are made of can be read off them. -/
theorem mantissa_kept (mantissa : ℕ) (accuracy : Accuracy) :
    (ExtendedMantissa.ofMantissaAndAccuracy mantissa accuracy).mantissa = mantissa := by
  cases accuracy with
  | exact => rfl
  | inexact order => cases order <;> rfl

/-- Digits that are moved into their place and rounded can be stored, and do not pass a bound that has
its digits at that place or above it. -/
theorem rounded_within {mantissa bound : ℕ} {exponent most : ℤ} {accuracy : Accuracy}
    (inPlace : exponent ≤ format.targetExponent (totalExponent mantissa exponent))
    (upper : format.targetExponent (totalExponent mantissa exponent) ≤ most)
    (within : Within (.ofMantissaAndAccuracy mantissa accuracy)
      (2 ^ (format.targetExponent (totalExponent mantissa exponent) - exponent).toNat *
        (bound * 2 ^ (most - format.targetExponent (totalExponent mantissa exponent)).toNat))) :
    let rounded := roundWithAccuracy format .positive mantissa exponent accuracy
    rounded.isFinite = true ∧ Stored format rounded ∧ number rounded ≤ bound * 2 ^ most := by
  have atMost : mantissa < 2 ^ (mantissa.log2 + 1) := Nat.lt_log2_self
  set place := format.targetExponent (totalExponent mantissa exponent) with isPlace
  rw [target_exponent] at isPlace
  have least : format.minExponent ≤ place := by omega
  set digits := ExtendedMantissa.ofMantissaAndAccuracy mantissa accuracy >>>
    (place - exponent).toNat with isDigits
  have shifted : shiftToTargetExponent format mantissa exponent accuracy = (digits, place) := by
    rw [shiftToTargetExponent, shiftToExponent, target_exponent, ← isPlace, Prod.mk.injEq]
    exact ⟨rfl, by omega⟩
  have kept : digits.roundedMantissa ≤ bound * 2 ^ (most - place).toNat := within.shifted.rounded
  have few : digits.roundedMantissa ≤ 2 ^ format.mantissaBits := by
    refine Within.rounded (Within.shifted (.inl ?_))
    rw [mantissa_kept, ← pow_add, Format.mantissaBits]
    exact atMost.trans_le (Nat.pow_le_pow_right two_pos (by omega))
  have full (above : format.minExponent < place) :
      2 ^ format.mantissaBitsWithoutImplicit ≤ digits.roundedMantissa := by
    have several := format.hm
    obtain rfl | positive := mantissa.eq_zero_or_pos
    · rw [Nat.log2_zero] at isPlace
      omega
    refine le_trans ?_ (mantissa_le_rounded _)
    rw [isDigits, shifted_mantissa, mantissa_kept, Nat.le_div_iff_mul_le (Nat.two_pow_pos _),
      ← pow_add]
    exact (Nat.pow_le_pow_right two_pos (by omega)).trans (Nat.log2_self_le positive.ne')
  obtain ⟨last, lastPlace, placed, value, room, above, enough⟩ := placed_digits few least full
  have size : (last : ℝ) * 2 ^ lastPlace ≤ bound * 2 ^ most := by
    rw [value]
    calc (digits.roundedMantissa : ℝ) * 2 ^ place
        ≤ (bound * 2 ^ (most - place).toNat : ℕ) * 2 ^ place := by gcongr
      _ = bound * 2 ^ most := by
          obtain ⟨rest, rfl⟩ := Int.le.dest upper
          rw [add_sub_cancel_left, Int.toNat_natCast, zpow_add₀ two_ne_zero, zpow_natCast]
          push_cast
          ring
  simp only [roundWithAccuracy, shifted, placed]
  split
  next =>
    refine ⟨rfl, trivial, ?_⟩
    show (0 : ℝ) ≤ _
    positivity
  next => exact ⟨rfl, ⟨room, above, enough⟩, by simpa [number, Sign.apply] using size⟩

/-- Digits without a rest, moved into their place and rounded, do not pass a stored value that they have
been at or below. -/
theorem rounded_below {mantissa bound : ℕ} {exponent most : ℤ} {sign : Sign} {some : 0 < bound}
    (positive : 0 < mantissa)
    (inPlace : exponent ≤ format.targetExponent (totalExponent mantissa exponent))
    (stored : Stored format (.finite sign bound most some))
    (below : (mantissa : ℝ) * 2 ^ exponent ≤ bound * 2 ^ most) :
    let rounded := roundWithAccuracy format .positive mantissa exponent .exact
    rounded.isFinite = true ∧ Stored format rounded ∧ number rounded ≤ bound * 2 ^ most := by
  have upper := place_le positive stored below
  refine rounded_within inPlace upper ?_
  obtain less | same := (digits_below inPlace upper below).lt_or_eq
  · exact .inl less
  · exact .inr ⟨same, rfl, rfl⟩

end Places

section Keeping

/-- The exponents that there is room for. -/
def Fits (format : Format) : UnpackedFloat → Prop
  | .finite _ _ exponent _ =>
    exponent + format.exponentBias + format.mantissaBitsWithoutImplicit + 1 < 2 ^ format.exponentBits
  | _ => True

/-- What is read from bits fits the format that it has been read by. -/
theorem unpack_fits (several : 1 < format.exponentBits) (bits : BitVec format.numBits) :
    Fits format (UnpackedFloat.unpack format bits) := by
  have room : (unpackExponent bits).toNat < 2 ^ format.exponentBits := (unpackExponent bits).isLt
  have four : 2 ^ 2 ≤ 2 ^ format.exponentBits := Nat.pow_le_pow_right two_pos several
  rw [UnpackedFloat.unpack]
  split
  · split <;> trivial
  next notMost =>
    have field : (unpackExponent bits).toNat + 1 ≠ 2 ^ format.exponentBits := fun same =>
      notMost (BitVec.eq_of_toNat_eq (by
        rw [BitVec.neg_one_eq_allOnes, BitVec.toNat_allOnes]
        omega))
    split
    next zero =>
      split
      · trivial
      · rw [zero, BitVec.toNat_zero]
        show _ < (2 : ℤ) ^ _
        have : (2 ^ 2 : ℤ) ≤ 2 ^ format.exponentBits := by exact_mod_cast four
        push_cast
        omega
    next =>
      show _ < (2 : ℤ) ^ _
      have : (((unpackExponent bits).toNat + 1 : ℕ) : ℤ) < 2 ^ format.exponentBits := by
        exact_mod_cast lt_of_le_of_ne room field
      push_cast at this
      omega

/-- A value with fewer digits than there is room for is put together and taken apart again without
loss at the least exponent. -/
theorem unpack_pack_least (sign : Sign) {mantissa : ℕ} (positive : 0 < mantissa)
    (few : mantissa < 2 ^ format.mantissaBitsWithoutImplicit) (several : 1 < format.exponentBits) :
    UnpackedFloat.unpack format
        (UnpackedFloat.pack format (.finite sign mantissa format.minExponent positive)) =
      .finite sign mantissa format.minExponent positive := by
  have least := least_exponent format
  have four : 2 ^ 2 ≤ 2 ^ format.exponentBits := Nat.pow_le_pow_right two_pos several
  have log : mantissa.log2 < format.mantissaBitsWithoutImplicit :=
    (Nat.log2_lt positive.ne').mpr few
  have stored : (BitVec.ofNat format.mantissaBitsWithoutImplicit mantissa).toNat = mantissa :=
    (BitVec.toNat_ofNat _ _).trans (Nat.mod_eq_of_lt few)
  have some : BitVec.ofNat format.mantissaBitsWithoutImplicit mantissa ≠ 0#_ := fun none => by
    have numbers := congrArg BitVec.toNat none
    rw [stored, BitVec.toNat_zero] at numbers
    omega
  have notMost : (0#_ : BitVec format.exponentBits) ≠ -1#_ := fun same => by
    have numbers := congrArg BitVec.toNat same
    rw [BitVec.neg_one_eq_allOnes, BitVec.toNat_allOnes, BitVec.toNat_zero] at numbers
    omega
  have field : format.minExponent + format.exponentBias + format.mantissaBitsWithoutImplicit = 1 := by
    omega
  rw [UnpackedFloat.pack, field, Int.toNat_one, if_neg (by omega),
    if_neg (by rw [Format.mantissaBits]; omega), UnpackedFloat.unpack]
  simp only [unpackMantissa_packComponents, unpackExponent_packComponents,
    unpackSign_packComponents, Sign.ofBitVec_toBitVec]
  rw [if_neg notMost, if_pos trivial, dif_neg some]
  simp only [stored, BitVec.toNat_zero]
  congr 1
  omega

/-- Values that are read back as they have been put down. -/
structure Kept (format : Format) (value : UnpackedFloat) : Prop where
  finite : value.isFinite = true
  stored : Stored format value
  fits : Fits format value

/-- A value that the format keeps is read back as it was written. -/
theorem Kept.read_back (several : 1 < format.exponentBits) {value : UnpackedFloat}
    (kept : Kept format value) :
    UnpackedFloat.unpack format (UnpackedFloat.pack format value) = value := by
  obtain ⟨finite, stored, fits⟩ := kept
  cases value with
  | notANumber | infinity => simp [UnpackedFloat.isFinite] at finite
  | zero sign => exact unpack_packedZero
  | finite sign mantissa exponent positive =>
    obtain ⟨few, least, full⟩ := stored
    by_cases normal : 2 ^ format.mantissaBitsWithoutImplicit ≤ mantissa
    · refine unpack_pack sign positive ?_ least fits
      exact (Nat.log2_eq_iff positive.ne').mpr
        ⟨normal, by rwa [Format.mantissaBits, add_comm] at few⟩
    · obtain rfl : exponent = format.minExponent :=
        le_antisymm (not_lt.mp fun above => normal (full above)) least
      exact unpack_pack_least sign positive (not_le.mp normal) several

/-- What is not above a value that there is room for has room itself. -/
theorem fits_below {value : UnpackedFloat} {sign : Sign} {bound : ℕ} {most : ℤ} {some : 0 < bound}
    (own : Stored format value) (stored : Stored format (.finite sign bound most some))
    (fits : Fits format (.finite sign bound most some)) (positive : AboveZero value)
    (below : number value ≤ bound * 2 ^ most) : Fits format value := by
  cases value with
  | notANumber | infinity | zero => trivial
  | finite other mantissa exponent digits =>
    cases positive
    have upper : exponent ≤ most := by
      by_contra above
      have more := digits_lt stored own (.inl (not_le.mp above))
      simp only [number, Sign.apply, Int.cast_natCast] at below
      exact absurd below (not_le.mpr more)
    have room : most + format.exponentBias + format.mantissaBitsWithoutImplicit + 1 <
        (2 : ℤ) ^ format.exponentBits := fits
    show _ < (2 : ℤ) ^ _
    omega

end Keeping

section Results

/-- A number that is not below zero as it comes out of an operation: it is an operand, or digits that
have been rounded. -/
inductive Rounds (format : Format) : ℝ → UnpackedFloat → Prop
  | operand {value : UnpackedFloat} (kept : Kept format value) (above : AboveZero value) :
    Rounds format (number value) value
  | digits {mantissa : ℕ} (exponent : ℤ) (positive : 0 < mantissa) :
    Rounds format (mantissa * 2 ^ exponent) (UnpackedFloat.round format .positive mantissa exponent)

/-- What a number rounds to is from zero on. -/
theorem Rounds.above {x : ℝ} {value : UnpackedFloat} (rounds : Rounds format x value) :
    AboveZero value := by
  cases rounds with
  | operand kept above => exact above
  | digits exponent positive => exact .of_sign (rounded_sign _ _ _ _)

/-- Rounding does not pass a value that can be kept. -/
theorem Rounds.below (several : 1 < format.exponentBits) {x : ℝ} {value bound : UnpackedFloat}
    (rounds : Rounds format x value) (kept : Kept format bound) (below : x ≤ number bound) :
    UnpackedFloat.le (UnpackedFloat.unpack format (UnpackedFloat.pack format value)) bound =
      true := by
  suffices same : Kept format value ∧ number value ≤ number bound by
    rw [same.1.read_back several,
      number_le same.1.stored kept.stored same.1.finite kept.finite]
    exact same.2
  cases rounds with
  | operand own above => exact ⟨own, below⟩
  | digits exponent positive =>
    have more : 0 < number bound := lt_of_lt_of_le (by positivity) below
    obtain ⟨finite, stored, fits⟩ := kept
    cases bound with
    | notANumber | infinity | zero => simp [number] at more
    | finite sign most place some =>
      cases sign with
      | negative =>
        have less : number (.finite .negative most place some) < 0 := by
          simp [number, Sign.apply]
          positivity
        exact absurd more less.not_gt
      | positive =>
        simp only [number, Sign.apply, Int.cast_natCast] at below
        obtain ⟨digits, moved, rounded, positive, inPlace, value⟩ :=
          round_moved format .positive exponent positive
        rw [← value] at below
        obtain ⟨finite, own, size⟩ := rounded_below positive inPlace stored below
        rw [rounded]
        have room := fits_below own stored fits (.of_sign (rounded_sign _ _ _ _)) size
        refine ⟨⟨finite, own, room⟩, ?_⟩
        simpa [number, Sign.apply] using size

/-- Normalising digits gives the rounded number that the digits stand for. -/
theorem normalize_rounds {size : ℤ} (exponent : ℤ) (sign : Sign) (positive : 0 < size) :
    Rounds format (size * 2 ^ exponent) (UnpackedFloat.normalize format size exponent sign) := by
  obtain ⟨digits, rfl⟩ := Int.eq_ofNat_of_zero_le positive.le
  have some : 0 < digits := by omega
  rw [UnpackedFloat.normalize, Int.compare_eq_gt.mpr positive, Int.cast_natCast]
  exact .digits exponent some

end Results

end VectorMotion.Rounded
