import VectorMotion.Proofs.Scalar.Exact
import VectorMotion.Proofs.Scalar.Rounded

/-!
# Values one after the other

What comes after a value comes after all that is before it. This is all that is needed to put times
in order, and it holds of exact and of rounded scalars. Values that are no numbers do no harm, since
nothing is before or after them.
-/

namespace VectorMotion

/-- The laws by which values are put in order. -/
class Scalar.Successive (S : Type) [Scalar S] : Prop where
  le_of_lt_of_le : ∀ {a b c : S}, a < b → b ≤ c → a ≤ c
  not_le_of_lt : ∀ {a b : S}, a < b → ¬ b ≤ a

instance : Scalar.Successive ℝ where
  le_of_lt_of_le less below := less.le.trans below
  not_le_of_lt less := not_le.mpr less

namespace Rounded

open Float.Model Float.Model.UnpackedFloat

/-- The place of a value among all numbers: the infinities at the ends and zeros in the middle, and
between them what is finite, by its exponent and its digits. -/
def place? : UnpackedFloat → Option (ℤ ×ₗ ℤ ×ₗ ℤ)
  | .notANumber => none
  | .infinity .negative => some (toLex (-2, toLex (0, 0)))
  | .finite .negative mantissa exponent _ => some (toLex (-1, toLex (-exponent, -mantissa)))
  | .zero _ => some (toLex (0, toLex (0, 0)))
  | .finite .positive mantissa exponent _ => some (toLex (1, toLex (exponent, mantissa)))
  | .infinity .positive => some (toLex (2, toLex (0, 0)))

/-- A value is below another one if its place is. -/
theorem lt_places (a b : UnpackedFloat) :
    UnpackedFloat.lt a b = true ↔ ∃ x ∈ place? a, ∃ y ∈ place? b, x < y := by
  have signs : compare Sign.negative Sign.positive = .lt := rfl
  cases a with
  | notANumber => cases b <;> simp [UnpackedFloat.lt, UnpackedFloat.compare, place?]
  | infinity sign =>
    cases sign <;> cases b with
    | infinity other | finite other =>
      cases other <;>
        simp [UnpackedFloat.lt, UnpackedFloat.compare, place?, Prod.Lex.toLex_lt_toLex, signs]
    | _ => simp [UnpackedFloat.lt, UnpackedFloat.compare, place?, Prod.Lex.toLex_lt_toLex]
  | zero sign =>
    cases b with
    | infinity other | finite other =>
      cases other <;>
        simp [UnpackedFloat.lt, UnpackedFloat.compare, place?, Prod.Lex.toLex_lt_toLex]
    | _ => simp [UnpackedFloat.lt, UnpackedFloat.compare, place?]
  | finite sign =>
    cases sign <;> cases b with
    | infinity other =>
      cases other <;>
        simp [UnpackedFloat.lt, UnpackedFloat.compare, place?, Prod.Lex.toLex_lt_toLex]
    | finite other =>
      cases other <;>
        simp [UnpackedFloat.lt, UnpackedFloat.compare, place?, Prod.Lex.toLex_lt_toLex,
          Ordering.then_eq_lt, Ordering.then_eq_gt, Int.compare_eq_lt, Nat.compare_eq_lt,
          Int.compare_eq_gt, Nat.compare_eq_gt]
    | _ => simp [UnpackedFloat.lt, UnpackedFloat.compare, place?, Prod.Lex.toLex_lt_toLex]

/-- A value has a place among the others exactly if it has a sign. -/
theorem place_some (a : UnpackedFloat) : (place? a).isSome = (sign? a).isSome := by
  cases a with
  | infinity sign | finite sign => cases sign <;> rfl
  | _ => rfl

/-- A value is below another one or at it if its place is. -/
theorem le_places (a b : UnpackedFloat) :
    UnpackedFloat.le a b = true ↔ ∃ x ∈ place? a, ∃ y ∈ place? b, x ≤ y := by
  have numbers := compare_some a b
  have less := lt_places b a
  rw [← place_some, ← place_some] at numbers
  rw [UnpackedFloat.lt, compare_swapped a b] at less
  rw [UnpackedFloat.le]
  cases compared : UnpackedFloat.compare a b with
  | none =>
    rw [compared, Option.isSome_none, eq_comm, Bool.and_eq_false_iff] at numbers
    simp only [Option.isSome_eq_false_iff, Option.isNone_iff_eq_none] at numbers
    obtain first | second := numbers
    · simp [first]
    · simp [second]
  | some order =>
    rw [compared, Option.isSome_some, eq_comm, Bool.and_eq_true] at numbers
    obtain ⟨x, first⟩ := Option.isSome_iff_exists.mp numbers.1
    obtain ⟨y, second⟩ := Option.isSome_iff_exists.mp numbers.2
    have reversed : order = .gt ↔ y < x := by
      simpa [compared, first, second, Ordering.swap_eq_lt] using less
    simp only [first, second, Option.any_some, Option.mem_def, Option.some.injEq,
      exists_eq_left', ← not_lt, ← reversed]
    exact Ordering.isLE_iff_ne_gt

/-- The laws hold of a scalar that is compared by taking its values apart. -/
theorem successive_of_places {S : Type} [Scalar S] (value : S → UnpackedFloat)
    (less : ∀ a b : S, a < b ↔ UnpackedFloat.lt (value a) (value b) = true)
    (below : ∀ a b : S, a ≤ b ↔ UnpackedFloat.le (value a) (value b) = true) :
    Scalar.Successive S where
  le_of_lt_of_le first second := by
    rw [less, lt_places] at first
    rw [below, le_places] at second ⊢
    obtain ⟨x, atA, y, atB, first⟩ := first
    obtain ⟨y', atB', z, atC, second⟩ := second
    cases Option.mem_unique atB atB'
    exact ⟨x, atA, z, atC, first.le.trans second⟩
  not_le_of_lt first second := by
    rw [less, lt_places] at first
    rw [below, le_places] at second
    obtain ⟨x, atA, y, atB, first⟩ := first
    obtain ⟨y', atB', x', atA', second⟩ := second
    cases Option.mem_unique atA atA'
    cases Option.mem_unique atB atB'
    exact not_lt_of_ge second first

instance : Scalar.Successive Float :=
  successive_of_places (fun x => x.toModel.unpack)
    (fun a b => by show a.lt b = true ↔ _; rw [Float.lt, decide_eq_true_iff]; rfl)
    (fun a b => by show a.le b = true ↔ _; rw [Float.le, decide_eq_true_iff]; rfl)

instance : Scalar.Successive Float32 :=
  successive_of_places (fun x => x.toModel.unpack)
    (fun a b => by show a.lt b = true ↔ _; rw [Float32.lt, decide_eq_true_iff]; rfl)
    (fun a b => by show a.le b = true ↔ _; rw [Float32.le, decide_eq_true_iff]; rfl)

end Rounded

end VectorMotion
