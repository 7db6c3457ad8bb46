import VectorMotion.Proofs.Scalar.Rounding

/-!
# Sums, differences and quotients

What comes out of an operation on rounded values that are not below zero, said by the number that it
is exactly. A sum or a difference is an operand or a number that is rounded. So it keeps to the side of
every stored value on which it is exactly: a rest of a length is not longer than the length, and a
share of something is one at most.
-/

namespace VectorMotion.Rounded

open Float.Model Float.Model.UnpackedFloat

variable {format : Format}

section Sides

/-- A finite value that is not below zero is zero or has digits. -/
theorem finite_above {value : UnpackedFloat} (finite : value.isFinite = true)
    (above : AboveZero value) : (∃ sign, value = .zero sign) ∨
      ∃ mantissa exponent positive, value = .finite .positive mantissa exponent positive := by
  cases value with
  | notANumber | infinity => simp [UnpackedFloat.isFinite] at finite
  | zero sign => exact .inl ⟨sign, rfl⟩
  | finite sign mantissa exponent positive =>
    cases above
    exact .inr ⟨mantissa, exponent, positive, rfl⟩

/-- A value from zero on that is not finite is positive infinity. -/
theorem infinite_above {value : UnpackedFloat} (infinite : ¬ value.isFinite = true)
    (above : AboveZero value) : value = .infinity .positive := by
  cases value with
  | zero | finite => exact absurd rfl infinite
  | notANumber => cases above
  | infinity sign => cases above; rfl

/-- Every value from zero on is at most infinity. -/
theorem below_infinity {value : UnpackedFloat} (above : AboveZero value) :
    UnpackedFloat.le value (.infinity .positive) = true := by
  cases value with
  | notANumber => cases above
  | infinity sign => cases above; rfl
  | _ => rfl

/-- What is less than something has an end. -/
theorem finite_of_lt {a b : UnpackedFloat} (above : AboveZero a)
    (less : UnpackedFloat.lt a b = true) : a.isFinite = true := by
  by_contra infinite
  rw [infinite_above infinite above] at less
  cases b with
  | infinity sign => cases sign <;> cases less
  | _ => cases less

/-- What is at most a finite value is finite itself, from zero on. -/
theorem finite_of_le {a b : UnpackedFloat} (above : AboveZero a) (finite : b.isFinite = true)
    (below : UnpackedFloat.le a b = true) : a.isFinite = true := by
  by_contra infinite
  rw [infinite_above infinite above] at below
  cases b with
  | notANumber | infinity => simp [UnpackedFloat.isFinite] at finite
  | _ => cases below

/-- What is less than a value is at most that value. -/
theorem le_of_less {a b : UnpackedFloat} (less : UnpackedFloat.lt a b = true) :
    UnpackedFloat.le a b = true := by
  rw [lt_places] at less
  rw [le_places]
  obtain ⟨x, atA, y, atB, less⟩ := less
  exact ⟨x, atA, y, atB, less.le⟩

/-- The order of the values is transitive, whatever the operands are. -/
theorem le_of_le_of_le {a b c : UnpackedFloat} (first : UnpackedFloat.le a b = true)
    (second : UnpackedFloat.le b c = true) : UnpackedFloat.le a c = true := by
  rw [le_places] at first second ⊢
  obtain ⟨x, atA, y, atB, first⟩ := first
  obtain ⟨y', atB', z, atC, second⟩ := second
  cases Option.mem_unique atB atB'
  exact ⟨x, atA, z, atC, first.trans second⟩

/-- What something above zero is below is above zero itself. -/
theorem above_of_le {a b : UnpackedFloat} (above : AboveZero a)
    (below : UnpackedFloat.le a b = true) : AboveZero b :=
  (zero_below b).mp (le_of_le_of_le ((zero_below a).mpr above) below)

end Sides

section Sums

/-- The sum of two values from zero on is the rounded sum of their numbers. -/
theorem sum_rounds {a b : UnpackedFloat} (first : Kept format a) (second : Kept format b)
    (firstAbove : AboveZero a) (secondAbove : AboveZero b) :
    Rounds format (number a + number b) (UnpackedFloat.add format a b) := by
  obtain ⟨sign, rfl⟩ | ⟨m, e, some, rfl⟩ := finite_above first.finite firstAbove
  · obtain ⟨other, rfl⟩ | ⟨n, f, any, rfl⟩ := finite_above second.finite secondAbove
    · show Rounds format (0 + 0) (if _ then _ else _)
      rw [add_zero]
      split
      · exact .operand first trivial
      · exact .operand (⟨rfl, trivial, trivial⟩ : Kept format (.zero .positive)) trivial
    · show Rounds format (0 + _) (.finite _ _ _ _)
      rw [zero_add]
      exact .operand second secondAbove
  · obtain ⟨other, rfl⟩ | ⟨n, f, any, rfl⟩ := finite_above second.finite secondAbove
    · show Rounds format (_ + 0) (.finite _ _ _ _)
      rw [add_zero]
      exact .operand first firstAbove
    · have total : number (.finite .positive m e some) + number (.finite .positive n f any) =
          ((decreaseExponent m e (min e f)).1 + (decreaseExponent n f (min e f)).1 : ℤ) *
            2 ^ min e f := by
        simp only [number, Sign.apply]
        push_cast
        rw [add_mul, aligned m (min_le_left e f), aligned n (min_le_right e f)]
      have digits : 0 < (decreaseExponent m e (min e f)).1 := Nat.shiftLeft_pos_iff.mpr some
      rw [total]
      exact normalize_rounds _ _ (by omega)

/-- A sum is not below zero if its operands are not, whether they have an end or not. -/
theorem sum_above {a b : UnpackedFloat} (first : a.isFinite = true → Kept format a)
    (second : b.isFinite = true → Kept format b) (firstAbove : AboveZero a)
    (secondAbove : AboveZero b) : AboveZero (UnpackedFloat.add format a b) := by
  by_cases some : a.isFinite = true
  · by_cases any : b.isFinite = true
    · exact (sum_rounds (first some) (second any) firstAbove secondAbove).above
    · rw [infinite_above any secondAbove]
      cases a with
      | notANumber | infinity => simp [UnpackedFloat.isFinite] at some
      | _ => rfl
  · rw [infinite_above some firstAbove]
    cases b with
    | notANumber => cases secondAbove
    | infinity sign => cases secondAbove; rfl
    | _ => rfl

end Sums

section Differences

/-- The difference of two numbers, taken to the smaller of the two exponents. -/
theorem difference_number (m n : ℕ) (e f : ℤ) (some : 0 < m) (any : 0 < n) :
    number (.finite .positive m e some) - number (.finite .positive n f any) =
      ((decreaseExponent m e (min e f)).1 - (decreaseExponent n f (min e f)).1 : ℤ) *
        2 ^ min e f := by
  simp only [number, Sign.apply]
  push_cast
  rw [sub_mul, aligned m (min_le_left e f), aligned n (min_le_right e f)]

/-- The difference of two values is the rounded difference of their numbers, if it is above zero. -/
theorem difference_rounds {a b : UnpackedFloat} (first : Kept format a) (second : Kept format b)
    (firstAbove : AboveZero a) (secondAbove : AboveZero b) (less : number b < number a) :
    Rounds format (number a - number b) (UnpackedFloat.sub format a b) := by
  obtain ⟨sign, rfl⟩ | ⟨m, e, some, rfl⟩ := finite_above first.finite firstAbove
  · obtain ⟨other, rfl⟩ | ⟨n, f, any, rfl⟩ := finite_above second.finite secondAbove
    · exact absurd less (lt_irrefl _)
    · simp only [number, Sign.apply, Int.cast_natCast] at less
      exact absurd less (not_lt.mpr (by positivity))
  · obtain ⟨other, rfl⟩ | ⟨n, f, any, rfl⟩ := finite_above second.finite secondAbove
    · show Rounds format (_ - 0) (.finite _ _ _ _)
      rw [sub_zero]
      exact .operand first firstAbove
    · have total := difference_number m n e f some any
      have more := sub_pos.mpr less
      rw [total] at more ⊢
      exact normalize_rounds _ _ (by exact_mod_cast pos_of_mul_pos_left more (by positivity))

/-- What is taken from something that is not greater leaves zero, or something below it. -/
theorem difference_falls (format : Format) {a b : UnpackedFloat} (first : a.isFinite = true)
    (second : b.isFinite = true) (firstAbove : AboveZero a) (secondAbove : AboveZero b)
    (below : number a ≤ number b) :
    (∃ sign, UnpackedFloat.sub format a b = .zero sign) ∨
      sign? (UnpackedFloat.sub format a b) = some .negative := by
  obtain ⟨sign, rfl⟩ | ⟨m, e, some, rfl⟩ := finite_above first firstAbove
  · obtain ⟨other, rfl⟩ | ⟨n, f, any, rfl⟩ := finite_above second secondAbove
    · left
      rw [UnpackedFloat.sub]
      split <;> exact ⟨_, rfl⟩
    · exact .inr rfl
  · obtain ⟨other, rfl⟩ | ⟨n, f, any, rfl⟩ := finite_above second secondAbove
    · simp only [number, Sign.apply, Int.cast_natCast] at below
      have : (0 : ℝ) < m * 2 ^ e := by positivity
      exact absurd below (not_le.mpr this)
    · have less := sub_nonpos.mpr below
      rw [difference_number] at less
      simp only [UnpackedFloat.sub, Sign.apply, UnpackedFloat.normalize]
      split
      next => exact .inr (rounded_sign _ _ _ _)
      next => exact .inl ⟨_, rfl⟩
      next more =>
        have : (0 : ℝ) <
            ((decreaseExponent m e (min e f)).1 - (decreaseExponent n f (min e f)).1 : ℤ) := by
          exact_mod_cast Int.compare_eq_gt.mp more
        exact absurd less (not_le.mpr (by positivity))

/-- What is in front of a point within a length is not negative and not longer than the length. If the
rounded end `a + b` is not at the point `c` or in front of it, then the exact end is not either. -/
theorem rest_within (several : 1 < format.exponentBits) {a b c : UnpackedFloat}
    (aKept : a.isFinite = true → Kept format a) (bKept : b.isFinite = true → Kept format b)
    (cKept : c.isFinite = true → Kept format c) (aAbove : AboveZero a) (bAbove : AboveZero b)
    (before : UnpackedFloat.lt a c = true)
    (within : ¬ UnpackedFloat.le (UnpackedFloat.unpack format
      (UnpackedFloat.pack format (UnpackedFloat.add format a b))) c = true) :
    AboveZero (UnpackedFloat.unpack format
        (UnpackedFloat.pack format (UnpackedFloat.sub format c a))) ∧
      UnpackedFloat.le (UnpackedFloat.unpack format
        (UnpackedFloat.pack format (UnpackedFloat.sub format c a))) b = true := by
  have cAbove := above_of_le aAbove (le_of_less before)
  have cFinite : c.isFinite = true := by
    by_contra infinite
    rw [infinite_above infinite cAbove] at within
    exact within (below_infinity (packed_above (sum_above aKept bKept aAbove bAbove)))
  obtain ⟨aFinite, aStored, aFits⟩ := aKept (finite_of_lt aAbove before)
  obtain ⟨-, cStored, cFits⟩ := cKept cFinite
  have rest := difference_rounds ⟨cFinite, cStored, cFits⟩ ⟨aFinite, aStored, aFits⟩ cAbove aAbove
    (number_lt aStored cStored aFinite cFinite before)
  refine ⟨packed_above rest.above, ?_⟩
  by_cases finite : b.isFinite = true
  · refine rest.below several (bKept finite) ?_
    by_contra more
    refine within ((sum_rounds ⟨aFinite, aStored, aFits⟩ (bKept finite) aAbove bAbove).below several
      ⟨cFinite, cStored, cFits⟩ ?_)
    linarith
  · rw [infinite_above finite bAbove]
    exact below_infinity (packed_above rest.above)

/-- What is taken from something finite that is not less leaves nothing above zero. -/
theorem rest_nonpos {a b : UnpackedFloat} (aStored : Stored format a) (bStored : Stored format b)
    (finite : b.isFinite = true) (above : AboveZero a) (order : UnpackedFloat.le a b = true) :
    UnpackedFloat.le (UnpackedFloat.unpack format
      (UnpackedFloat.pack format (UnpackedFloat.sub format a b))) (.zero .positive) = true := by
  have aFinite := finite_of_le above finite order
  have numbers := (number_le aStored bStored aFinite finite).mp order
  obtain ⟨sign, none⟩ | negative := difference_falls format aFinite finite above
    (above_of_le above order) numbers
  · rw [none, UnpackedFloat.pack, unpack_packedZero]
    rfl
  · exact negative_below ((packed_sign _).trans negative) rfl

end Differences

section Quotients

/-- How much digits are moved up before they are divided: enough for a quotient with all digits, unless
it is at the least exponent. -/
theorem quotient_places {m n places : ℕ} {e f : ℤ} (some : 0 < m) (any : 0 < n)
    (least : format.minExponent < e - f - places)
    (target : e - f - places ≤
      format.targetExponent (totalExponent m e - totalExponent n f)) :
    2 ^ format.mantissaBitsWithoutImplicit ≤ (m <<< places) / n := by
  have below : n < 2 ^ (n.log2 + 1) := Nat.lt_log2_self
  have enough : format.mantissaBitsWithoutImplicit + (n.log2 + 1) ≤ m.log2 + places := by
    simp only [Format.targetExponent, totalExponent, Format.mantissaBits] at target
    push_cast at target
    omega
  rw [Nat.le_div_iff_mul_le any, Nat.shiftLeft_eq]
  calc 2 ^ format.mantissaBitsWithoutImplicit * n
      ≤ 2 ^ format.mantissaBitsWithoutImplicit * 2 ^ (n.log2 + 1) :=
        Nat.mul_le_mul_left _ below.le
    _ ≤ 2 ^ (m.log2 + places) := by
        rw [← pow_add]
        exact Nat.pow_le_pow_right two_pos enough
    _ = 2 ^ m.log2 * 2 ^ places := pow_add _ _ _
    _ ≤ m * 2 ^ places := Nat.mul_le_mul_right _ (Nat.log2_self_le some.ne')

/-- A quotient by something that is not less does not pass one. -/
theorem quotient_below (several : 1 < format.exponentBits) {m n : ℕ} {e f : ℤ} (some : 0 < m)
    (any : 0 < n) (below : (m : ℝ) * 2 ^ e ≤ n * 2 ^ f) :
    let quotient := UnpackedFloat.div format (.finite .positive m e some) (.finite .positive n f any)
    quotient.isFinite = true ∧ Stored format quotient ∧ number quotient ≤
      (2 ^ format.mantissaBitsWithoutImplicit : ℕ) *
        2 ^ (-format.mantissaBitsWithoutImplicit : ℤ) := by
  have order : m.log2 + e < n.log2 + 1 + f := by
    have powers : (2 : ℝ) ^ (m.log2 + e) < 2 ^ (n.log2 + 1 + f) :=
      calc (2 : ℝ) ^ (m.log2 + e) = 2 ^ m.log2 * 2 ^ e := by rw [zpow_add₀ two_ne_zero, zpow_natCast]
        _ ≤ m * 2 ^ e := by
            gcongr
            exact_mod_cast Nat.log2_self_le some.ne'
        _ ≤ n * 2 ^ f := below
        _ < 2 ^ (n.log2 + 1) * 2 ^ f := by
            gcongr
            exact_mod_cast Nat.lt_log2_self
        _ = 2 ^ (n.log2 + 1 + f) := by
            rw [zpow_add₀ two_ne_zero (n.log2 + 1 : ℤ), ← zpow_natCast]
            push_cast
            rfl
    exact (zpow_lt_zpow_iff_right₀ one_lt_two).mp powers
  have least : format.minExponent ≤ -format.mantissaBitsWithoutImplicit := by
    have two : 2 ^ 1 ≤ 2 ^ (format.exponentBits - 1) := Nat.pow_le_pow_right two_pos (by omega)
    rw [least_exponent, Format.exponentBias]
    omega
  set place := min (e - f) (format.targetExponent (totalExponent m e - totalExponent n f))
    with isPlace
  have low : place ≤ -format.mantissaBitsWithoutImplicit := by
    refine (min_le_right _ _).trans ?_
    simp only [Format.targetExponent, totalExponent, Format.mantissaBits]
    push_cast
    omega
  set places := (e - f - place).toNat with isPlaces
  have reached : e - f - places = place := by omega
  have digits : m <<< places ≤ n * 2 ^ (-place).toNat := by
    have moved := moved_up m places e
    rw [show e - places = f + place by omega] at moved
    have bounded := digits_below (show f + place ≤ f by omega) le_rfl (moved.trans_le below)
    rwa [sub_self, Int.toNat_zero, pow_zero, mul_one, mul_comm, sub_add_cancel_left] at bounded
  set quotient := (m <<< places) / n with isQuotient
  have few : quotient ≤ 2 ^ (-place).toNat := Nat.div_le_of_le_mul digits
  have inPlace : place ≤ format.targetExponent (totalExponent quotient place) := by
    rw [target_exponent]
    by_cases above : format.minExponent < place
    · rw [← reached] at above
      have full := quotient_places some any above (reached.le.trans (min_le_right _ _))
      rw [← isQuotient] at full
      have log := (Nat.le_log2 ((Nat.two_pow_pos _).trans_le full).ne').mpr full
      omega
    · omega
  have upper : format.targetExponent (totalExponent quotient place) ≤
      -format.mantissaBitsWithoutImplicit := by
    have log : quotient.log2 ≤ (-place).toNat := by
      obtain none | some := quotient.eq_zero_or_pos
      · rw [none, Nat.log2_zero]
        exact Nat.zero_le _
      · exact (Nat.pow_le_pow_iff_right one_lt_two).mp ((Nat.log2_self_le some.ne').trans few)
    rw [target_exponent]
    omega
  refine rounded_within inPlace upper ?_
  set last := format.targetExponent (totalExponent quotient place)
  have bound : 2 ^ (last - place).toNat * (2 ^ format.mantissaBitsWithoutImplicit *
      2 ^ (-format.mantissaBitsWithoutImplicit - last).toNat) = 2 ^ (-place).toNat := by
    rw [← pow_add, ← pow_add]
    congr 1
    omega
  rw [bound, Within, mantissa_kept]
  obtain less | same := few.lt_or_eq
  · exact .inl less
  · -- A quotient that is the bound is the bound exactly.
    have parts := Nat.div_add_mod (m <<< places) n
    rw [← isQuotient, same] at parts
    have exact : (m <<< places) % n = 0 := Nat.le_zero.mp (by linarith)
    rw [accuracyOfFraction, if_pos exact]
    exact .inr ⟨same, rfl, rfl⟩

/-- A share of something that has digits is one at most. -/
theorem quotient_le_one (several : 1 < format.exponentBits) {a : UnpackedFloat} {n : ℕ} {f : ℤ}
    {any : 0 < n} (finite : a.isFinite = true) (above : AboveZero a)
    (below : number a ≤ number (.finite .positive n f any))
    (unit : Kept format (.finite .positive (2 ^ format.mantissaBitsWithoutImplicit)
      (-format.mantissaBitsWithoutImplicit) (Nat.two_pow_pos _))) :
    UnpackedFloat.le
      (UnpackedFloat.unpack format (UnpackedFloat.pack format
        (UnpackedFloat.div format a (.finite .positive n f any))))
      (.finite .positive (2 ^ format.mantissaBitsWithoutImplicit)
        (-format.mantissaBitsWithoutImplicit) (Nat.two_pow_pos _)) = true := by
  obtain ⟨sign, rfl⟩ | ⟨m, e, some, rfl⟩ := finite_above finite above
  · rw [UnpackedFloat.div, UnpackedFloat.pack, unpack_packedZero]
    rfl
  · simp only [number, Sign.apply, Int.cast_natCast] at below
    obtain ⟨finite, stored, size⟩ := quotient_below several some any below
    have fits := fits_below stored unit.stored unit.fits
      (quotient_above (.of_sign rfl) n f any) size
    rw [Kept.read_back several ⟨finite, stored, fits⟩, number_le stored unit.stored finite rfl]
    simpa [number, Sign.apply] using size

end Quotients

end VectorMotion.Rounded
