import Mathlib
import VectorMotion.Proofs.Scalar.Ordering
import VectorMotion.Scalar.Floating

/-!
# The order of rounded scalars

The two scalars that the running program uses obey the laws of comparison. A number is taken apart
into its sign, its digits and its exponent, worked with, and put together again. Rounding changes
digits and exponent, and makes a zero or an infinity of some values, but it keeps the sign, and it
makes a number of every number.
-/

namespace VectorMotion.Rounded

open Float.Model Float.Model.UnpackedFloat

/-- The sign of a value. One that is no number has none. -/
def sign? : UnpackedFloat → Option Sign
  | .notANumber => none
  | .infinity sign | .zero sign | .finite sign .. => some sign

/-- Zeros of both signs, and what is positive. -/
def AboveZero : UnpackedFloat → Prop
  | .zero _ => True
  | value => sign? value = some .positive

/-- A value with a positive sign is from zero on. -/
theorem AboveZero.of_sign {value : UnpackedFloat} (positive : sign? value = some .positive) :
    AboveZero value := by
  cases value with
  | zero => trivial
  | _ => exact positive

section Comparisons

/-- Comparing the other way around turns the result around. -/
theorem compare_swapped (a b : UnpackedFloat) :
    UnpackedFloat.compare b a = (UnpackedFloat.compare a b).map Ordering.swap := by
  cases a with
  | notANumber => cases b <;> rfl
  | infinity sign =>
    cases b with
    | infinity other => cases sign <;> cases other <;> rfl
    | _ => cases sign <;> rfl
  | zero sign =>
    cases b with
    | finite other => cases other <;> rfl
    | infinity other => cases other <;> rfl
    | _ => rfl
  | finite sign mantissa exponent =>
    cases b with
    | finite other otherMantissa otherExponent =>
      cases sign <;> cases other <;>
        simp [UnpackedFloat.compare, Ordering.swap_then, Nat.compare_swap, Int.compare_swap]
    | infinity other => cases other <;> rfl
    | zero other => cases sign <;> rfl
    | notANumber => rfl

/-- A value compares with itself as equal, and with others at all, exactly if it is a number. -/
theorem compare_some (a b : UnpackedFloat) :
    (UnpackedFloat.compare a b).isSome = ((sign? a).isSome && (sign? b).isSome) := by
  cases a with
  | notANumber => cases b <;> rfl
  | infinity sign =>
    cases b with
    | infinity other => cases sign <;> cases other <;> rfl
    | _ => cases sign <;> rfl
  | zero sign =>
    cases b with
    | finite other => cases other <;> rfl
    | infinity other => cases other <;> rfl
    | _ => rfl
  | finite sign =>
    cases b with
    | finite other => cases sign <;> cases other <;> rfl
    | infinity other => cases other <;> rfl
    | zero other => cases sign <;> rfl
    | notANumber => rfl

/-- A value equals itself exactly if it has a sign, hence if it is a number. -/
theorem compare_self (a : UnpackedFloat) :
    (UnpackedFloat.beq a a) = (sign? a).isSome := by
  cases a with
  | notANumber => rfl
  | infinity sign => cases sign <;> rfl
  | zero sign => rfl
  | finite sign => cases sign <;> simp [UnpackedFloat.beq, UnpackedFloat.compare, sign?]

/-- What is not below a value is above or at it, among numbers. -/
theorem le_of_not_less {a b : UnpackedFloat} (first : (sign? a).isSome = true)
    (second : (sign? b).isSome = true) (notLess : ¬ UnpackedFloat.lt a b = true) :
    UnpackedFloat.le b a = true := by
  have some := compare_some a b
  simp only [first, second, Bool.and_self] at some
  obtain ⟨order, compared⟩ := Option.isSome_iff_exists.mp some
  rw [UnpackedFloat.le, compare_swapped a b, compared]
  cases order with
  | lt => simp [UnpackedFloat.lt, compared] at notLess
  | _ => rfl

/-- Zero is below exactly the values above it. -/
theorem zero_below (value : UnpackedFloat) :
    UnpackedFloat.le (.zero .positive) value = true ↔ AboveZero value := by
  cases value with
  | zero => simp [AboveZero, UnpackedFloat.le, UnpackedFloat.compare]
  | notANumber => simp [AboveZero, sign?, UnpackedFloat.le, UnpackedFloat.compare]
  | infinity sign =>
    cases sign <;> simp [AboveZero, sign?, UnpackedFloat.le, UnpackedFloat.compare]
  | finite sign =>
    cases sign <;> simp [AboveZero, sign?, UnpackedFloat.le, UnpackedFloat.compare]

/-- What is negative is below what is positive. -/
theorem negative_below {a b : UnpackedFloat} (negative : sign? a = some .negative)
    (positive : sign? b = some .positive) : UnpackedFloat.le a b = true := by
  cases a <;> cases b <;> simp only [sign?, Option.some.injEq, reduceCtorEq] at negative positive <;>
    subst negative <;> subst positive <;> rfl

end Comparisons

section Packing

variable {format : Format}

/-- Components make a value of their sign, if they are not those of a value that is no number. -/
theorem components_sign (sign : Sign) (exponent : BitVec format.exponentBits)
    (mantissa : BitVec format.mantissaBitsWithoutImplicit)
    (number : exponent = -1#_ → mantissa = 0#_) :
    sign? (UnpackedFloat.unpack format (packComponents format sign exponent mantissa))
      = some sign := by
  simp only [UnpackedFloat.unpack, unpackMantissa_packComponents, unpackExponent_packComponents,
    unpackSign_packComponents, Sign.ofBitVec_toBitVec]
  split
  next most => rw [if_pos (number most)]; rfl
  next =>
    split
    · split <;> rfl
    · rfl

/-- What has been put together and is taken apart again has kept its sign. -/
theorem packed_sign (value : UnpackedFloat) :
    sign? (UnpackedFloat.unpack format (UnpackedFloat.pack format value)) = sign? value := by
  cases value with
  | notANumber => rw [UnpackedFloat.pack, unpack_packedNaN]
  | infinity sign => exact components_sign sign _ _ fun _ => rfl
  | zero sign => rw [UnpackedFloat.pack, unpack_packedZero]
  | finite sign mantissa exponent positive =>
    simp only [UnpackedFloat.pack]
    split
    · exact components_sign sign _ _ fun _ => rfl
    next fits =>
      split
      · refine components_sign sign _ _ fun most => ?_
        have same := congrArg BitVec.toNat most
        rw [BitVec.toNat_ofNat, BitVec.neg_one_eq_allOnes, BitVec.toNat_allOnes,
          Nat.mod_eq_of_lt (by omega)] at same
        omega
      · refine components_sign sign _ _ fun most => ?_
        simp [Nat.ne_of_gt format.he] at most

/-- What is above zero has stayed so. -/
theorem packed_above {value : UnpackedFloat} (above : AboveZero value) :
    AboveZero (UnpackedFloat.unpack format (UnpackedFloat.pack format value)) := by
  cases value with
  | zero sign =>
    rw [UnpackedFloat.pack, unpack_packedZero]
    trivial
  | _ => exact .of_sign ((packed_sign _).trans above)

end Packing

section Operations

variable {format : Format}

/-- Rounding keeps the sign. -/
theorem rounded_sign (sign : Sign) (mantissa : Nat) (exponent : Int) (accuracy : Accuracy) :
    sign? (roundWithAccuracy format sign mantissa exponent accuracy) = some sign := by
  simp only [roundWithAccuracy]
  split <;> rfl

/-- What a positive number divides keeps its sign, and stays no number if it is none. -/
theorem quotient_sign (value : UnpackedFloat) (mantissa : Nat) (exponent : Int)
    (positive : 0 < mantissa) :
    sign? (UnpackedFloat.div format value (.finite .positive mantissa exponent positive)) =
      sign? value := by
  have divided (sign : Sign) : sign / .positive = sign := by cases sign <;> rfl
  cases value with
  | notANumber => rfl
  | infinity sign => exact congrArg some (divided sign)
  | zero sign => exact congrArg some (divided sign)
  | finite sign => exact (rounded_sign _ _ _ _).trans (congrArg some (divided sign))

/-- Dividing a value from zero on by a positive number gives a value from zero on. -/
theorem quotient_above {value : UnpackedFloat} (above : AboveZero value) (mantissa : Nat)
    (exponent : Int) (positive : 0 < mantissa) :
    AboveZero (UnpackedFloat.div format value (.finite .positive mantissa exponent positive)) := by
  cases value with
  | zero => trivial
  | _ => exact .of_sign ((quotient_sign _ _ _ _).trans above)

/-- A multiple by a positive number keeps its sign. -/
theorem product_above {value : UnpackedFloat} (above : AboveZero value) (mantissa : Nat)
    (exponent : Int) (positive : 0 < mantissa) :
    AboveZero (UnpackedFloat.mul format value (.finite .positive mantissa exponent positive)) := by
  have times (sign : Sign) : sign * .positive = sign := by cases sign <;> rfl
  cases value with
  | zero => trivial
  | notANumber => cases above
  | infinity sign => exact .of_sign ((congrArg some (times sign)).trans above)
  | finite sign =>
    exact .of_sign ((rounded_sign _ _ _ _).trans ((congrArg some (times sign)).trans above))

/-- Natural numbers are above zero. -/
theorem natural_above (n : Nat) : AboveZero (UnpackedFloat.ofNat format n) := by
  simp only [UnpackedFloat.ofNat, UnpackedFloat.ofInt, UnpackedFloat.normalize]
  split
  next less => rw [Int.compare_eq_lt] at less; omega
  · trivial
  · exact .of_sign (rounded_sign _ _ _ _)

/-- Numerals are above zero. -/
theorem numeral_above (n : Nat) (exponent : Int) :
    AboveZero (UnpackedFloat.ofScientific format n exponent) := by
  simp only [UnpackedFloat.ofScientific]
  split
  · trivial
  split
  · rfl
  split
  · trivial
  split
  · exact product_above (.of_sign rfl) _ _ _
  · exact quotient_above (.of_sign rfl) _ _ _

/-- A magnitude is positive, if it is a number. -/
theorem magnitude_sign (value : UnpackedFloat) :
    sign? (UnpackedFloat.abs value) = (sign? value).map fun _ => .positive := by
  cases value <;> rfl

/-- What has been turned to the other side of zero is below it. -/
theorem opposite_below {value : UnpackedFloat} (above : AboveZero value) :
    UnpackedFloat.le (UnpackedFloat.unpack format (UnpackedFloat.pack format value.neg)) value =
      true := by
  cases value with
  | zero sign =>
    rw [UnpackedFloat.neg, UnpackedFloat.pack, unpack_packedZero]
    rfl
  | notANumber => cases above
  | infinity sign =>
    refine negative_below ((packed_sign _).trans ?_) above
    cases above
    rfl
  | finite sign =>
    refine negative_below ((packed_sign _).trans ?_) above
    cases above
    rfl

end Operations

/-- A scalar obeys the laws if it is compared, and its magnitudes, halves and opposites are made,
by taking its values apart. -/
theorem ordered_of_format {S : Type} [Scalar S] (format : Format) (value : S → UnpackedFloat)
    (less : ∀ a b : S, a < b ↔ UnpackedFloat.lt (value a) (value b) = true)
    (below : ∀ a b : S, a ≤ b ↔ UnpackedFloat.le (value a) (value b) = true)
    (same : ∀ a b : S, (a == b) = UnpackedFloat.beq (value a) (value b))
    (zero : value 0 = .zero .positive)
    (two : ∃ mantissa exponent positive, value 2 = .finite .positive mantissa exponent positive)
    (natural : ∀ n : Nat, (Scalar.ofNat n : S) = Scalar.ofScientific n false 0)
    (numeral : ∀ n negative exponent, AboveZero (value (Scalar.ofScientific n negative exponent)))
    (opposite : ∀ a : S,
      value (-a) = UnpackedFloat.unpack format (UnpackedFloat.pack format (value a).neg))
    (magnitude : ∀ a : S, value (Scalar.abs a) =
      UnpackedFloat.unpack format (UnpackedFloat.pack format (value a).abs))
    (quotient : ∀ a b : S, value (a / b) =
      UnpackedFloat.unpack format
        (UnpackedFloat.pack format (UnpackedFloat.div format (value a) (value b)))) :
    Scalar.Ordered S := by
  have number (a : S) : Scalar.isNaN a = !(sign? (value a)).isSome := by
    rw [Scalar.isNaN, same, compare_self]
  have above (a : S) : 0 ≤ a ↔ AboveZero (value a) := by rw [below, zero, zero_below]
  have compared {a b : S} (found : (UnpackedFloat.compare (value a) (value b)).isSome = true) :
      Scalar.isNaN a = false ∧ Scalar.isNaN b = false := by
    rw [compare_some, Bool.and_eq_true] at found
    simp [number, found.1, found.2]
  obtain ⟨mantissa, exponent, positive, two⟩ := two
  exact {
    numbers_of_le := fun {a b} holds => by
      rw [below, UnpackedFloat.le] at holds
      exact compared (Option.isSome_of_any holds)
    numbers_of_lt := fun {a b} holds => by
      rw [less, UnpackedFloat.lt] at holds
      exact compared (by rw [eq_of_beq holds]; rfl)
    le_self := fun {a} isNumber => by
      rw [number, Bool.not_eq_false', ← compare_self, UnpackedFloat.beq, beq_iff_eq] at isNumber
      rw [below, UnpackedFloat.le, isNumber]
      rfl
    le_of_not_lt := fun {a b} first second notLess => by
      rw [number, Bool.not_eq_false'] at first second
      rw [less] at notLess
      exact (below b a).mpr (le_of_not_less first second notLess)
    ofNat_nonneg := fun n => by
      rw [natural, above]
      exact numeral n false 0
    ofScientific_nonneg := fun n negative exponent => (above _).mpr (numeral n negative exponent)
    neg_le_self := fun {a} holds => by
      rw [below, opposite]
      exact opposite_below ((above a).mp holds)
    abs_number := fun a => by
      rw [number, number, magnitude, packed_sign, magnitude_sign, Option.isSome_map]
    abs_nonneg := fun {a} isNumber => by
      rw [number, Bool.not_eq_false', Option.isSome_iff_exists] at isNumber
      obtain ⟨sign, signed⟩ := isNumber
      rw [above, magnitude]
      exact packed_above (.of_sign (by rw [magnitude_sign, signed, Option.map_some]))
    half_nonneg := fun {a} holds => by
      rw [above, quotient, two]
      exact packed_above (quotient_above ((above a).mp holds) _ _ _)
    half_number := fun {a} isNumber => by
      rw [number, quotient, packed_sign, two, quotient_sign, ← number] at isNumber
      exact isNumber }

section Numerals

/-- A finite positive value: a multiple or a quotient by it is on the same side of zero. -/
def isFactor : UnpackedFloat → Bool
  | .finite .positive .. => true
  | _ => false

/-- So does a division whose quotient is rounded to the format. -/
theorem rounded_quotient_above {format : Format} {value factor : UnpackedFloat}
    (above : AboveZero value) (isFactor : isFactor factor = true) :
    AboveZero (UnpackedFloat.unpack format
      (UnpackedFloat.pack format (UnpackedFloat.div format value factor))) := by
  cases factor with
  | finite sign mantissa exponent positive =>
    cases sign with
    | positive => exact packed_above (quotient_above above mantissa exponent positive)
    | negative => cases isFactor
  | _ => cases isFactor

/-- A value from zero on, multiplied by a factor and rounded, is from zero on. -/
theorem rounded_product_above {format : Format} {value factor : UnpackedFloat}
    (above : AboveZero value) (isFactor : isFactor factor = true) :
    AboveZero (UnpackedFloat.unpack format
      (UnpackedFloat.pack format (UnpackedFloat.mul format value factor))) := by
  cases factor with
  | finite sign mantissa exponent positive =>
    cases sign with
    | positive => exact packed_above (product_above above mantissa exponent positive)
    | negative => cases isFactor
  | _ => cases isFactor

/-- The powers of ten that a double represents exactly are factors. -/
theorem double_powers : Float.exactlyRepresentablePowersOfTen.all
    (fun power => isFactor power.toModel.unpack) = true := by
  decide +kernel

/-- Numerals in double precision are above zero. Short ones are made from one exact power of ten. -/
theorem double_numeral (n : Nat) (negative : Bool) (exponent : Nat) :
    AboveZero (Float.ofScientific n negative exponent).toModel.unpack := by
  unfold Float.ofScientific
  split
  next small =>
    have natural : AboveZero n.toUInt64.toFloat.toModel.unpack := packed_above (natural_above _)
    have bound : exponent < Float.exactlyRepresentablePowersOfTen.size := Nat.lt_succ_of_le small.2
    have power := Array.all_eq_true.mp double_powers exponent bound
    split
    · exact rounded_quotient_above natural power
    · exact rounded_product_above natural power
  next => exact packed_above (numeral_above _ _)

/-- The powers of ten that a single represents exactly are factors. -/
theorem single_powers : Float32.exactlyRepresentablePowersOfTen.all
    (fun power => isFactor power.toModel.unpack) = true := by
  decide +kernel

/-- Numerals in single precision are above zero. -/
theorem single_numeral (n : Nat) (negative : Bool) (exponent : Nat) :
    AboveZero (Float32.ofScientific n negative exponent).toModel.unpack := by
  unfold Float32.ofScientific
  split
  next small =>
    have natural : AboveZero n.toUInt64.toFloat32.toModel.unpack := packed_above (natural_above _)
    have bound : exponent < Float32.exactlyRepresentablePowersOfTen.size :=
      Nat.lt_succ_of_le small.2
    have power := Array.all_eq_true.mp single_powers exponent bound
    split
    · exact rounded_quotient_above natural power
    · exact rounded_product_above natural power
  next => exact packed_above (numeral_above _ _)

end Numerals

instance : Scalar.Ordered Float :=
  ordered_of_format .binary64 (fun x => x.toModel.unpack)
    (fun a b => by show a.lt b = true ↔ _; rw [Float.lt, decide_eq_true_iff]; rfl)
    (fun a b => by show a.le b = true ↔ _; rw [Float.le, decide_eq_true_iff]; rfl)
    (fun _ _ => rfl) rfl ⟨_, _, _, rfl⟩ (fun _ => rfl) double_numeral
    (fun _ => rfl) (fun _ => rfl) (fun _ _ => rfl)

instance : Scalar.Ordered Float32 :=
  ordered_of_format .binary32 (fun x => x.toModel.unpack)
    (fun a b => by show a.lt b = true ↔ _; rw [Float32.lt, decide_eq_true_iff]; rfl)
    (fun a b => by show a.le b = true ↔ _; rw [Float32.le, decide_eq_true_iff]; rfl)
    (fun _ _ => rfl) rfl ⟨_, _, _, rfl⟩ (fun _ => rfl) single_numeral
    (fun _ => rfl) (fun _ => rfl) (fun _ _ => rfl)

/-- What is above zero is a number, and so is its opposite. -/
theorem number_of_above {x : Float} (above : AboveZero x.toModel.unpack) :
    Scalar.isNaN x = false ∧ Scalar.isNaN (-x) = false := by
  have nonneg : (0 : Float) ≤ x := by
    show Float.le 0 x = true
    rw [Float.le, decide_eq_true_iff]
    exact (zero_below _).mpr above
  exact ⟨(Scalar.Ordered.numbers_of_le nonneg).2,
    (Scalar.Ordered.numbers_of_le (Scalar.Ordered.neg_le_self nonneg)).1⟩

/-- All powers of ten up to the greatest one in double precision are finite and positive. -/
theorem power_factor (exponent : Nat) (bound : exponent ≤ 308) :
    isFactor (Float.ofScientific 1 false exponent).toModel.unpack = true := by
  have all : (List.range 309).all (fun exponent =>
      isFactor (Float.ofScientific 1 false exponent).toModel.unpack) = true := by
    decide +kernel
  exact List.all_eq_true.mp all exponent (List.mem_range.mpr (Nat.lt_succ_of_le bound))

end VectorMotion.Rounded

namespace VectorMotion

/-- Scenes can be worked out in double precision throughout, where nothing is ever converted. -/
instance doubleThroughout : Widen Float Float := ⟨id, id⟩

instance : Widen.Faithful Float Float := ⟨fun _ => rfl, fun nonneg => nonneg⟩

end VectorMotion
