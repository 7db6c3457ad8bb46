/-!
# Scalars

Every measure of an animation (time, colour, opacity, position) is held in a *scalar*: a type
with the arithmetic below. The running program works in two of them, single precision for
authored attributes and double precision for outlines, and never mixes them except through
`Widen`. Because no definition of the library names a concrete number type, each one can also
be read over an exact field, where the laws of its arithmetic can be stated without rounding.

Comparisons are those of the number type. A value that is not a number is unequal to itself and
neither below nor above anything, and every derived function here says what it does with one.
-/

namespace VectorMotion

/-- The arithmetic of a measure. Operations are applied in the written order and never fused,
so a definition over a rounded type fixes every bit of its result. -/
class Scalar (S : Type) extends Add S, Sub S, Mul S, Div S, Neg S, LT S, LE S, BEq S where
  /-- Order is decided, not only stated. -/
  decideLt : (a b : S) → Decidable (a < b)
  /-- Order is decided, not only stated. -/
  decideLe : (a b : S) → Decidable (a ≤ b)
  /-- The nearest scalar to a natural number. -/
  ofNat : Nat → S
  /-- The nearest scalar to a decimal literal, read as `OfScientific.ofScientific` reads it. -/
  ofScientific : Nat → Bool → Nat → S
  /-- The nearest scalar to a double precision number, as one is read from a document. -/
  ofDouble : Float → S
  /-- The value as a double precision number, for printing it. -/
  toDouble : S → Float
  /-- The integer left when the fraction is cut off; meaningful for values of 64-bit size. -/
  truncate : S → Int
  /-- Magnitude. -/
  abs : S → S
  /-- Greatest whole number that is not above the value. -/
  floor : S → S
  /-- Least whole number that is not below the value. -/
  ceil : S → S
  /-- Nearest whole number, halves away from zero. -/
  round : S → S
  /-- Square root. -/
  sqrt : S → S
  /-- Length of the hypotenuse over two legs. -/
  hypot : S → S → S
  /-- Sine of an angle in radians. -/
  sin : S → S
  /-- Cosine of an angle in radians. -/
  cos : S → S
  /-- Tangent of an angle in radians. -/
  tan : S → S
  /-- `atan2 y x`, the angle of the point `(x, y)` in radians. -/
  atan2 : S → S → S
  /-- One degree in radians. -/
  degree : S
  /-- What is left of the first operand after whole multiples of the second are taken away
  toward zero; it has the sign of the first. -/
  remainder : S → S → S
  /-- A total order in which equal numbers of different sign have a place each, and values that
  are no numbers one before all numbers. -/
  precedes : S → S → Bool

/-- Exchange between the attribute scalar and the outline scalar. -/
class Widen (S P : Type) where
  /-- An attribute value as an outline coordinate; nothing is lost. -/
  widen : S → P
  /-- The attribute value nearest to an outline measure. -/
  narrow : P → S

export Widen (widen narrow)

namespace Scalar

variable {S : Type} [Scalar S]

instance (a b : S) : Decidable (a < b) := decideLt a b

instance (a b : S) : Decidable (a ≤ b) := decideLe a b

instance (priority := low) (n : Nat) : OfNat S n := ⟨ofNat n⟩

instance (priority := low) : OfScientific S := ⟨ofScientific⟩

/-- A value that is no number differs from itself. -/
def isNaN (x : S) : Bool := !(x == x)

/-- Finite values, and only they, leave a number when taken from themselves. -/
def isFinite (x : S) : Bool := !isNaN (x - x)

/-- The lesser operand; an operand that is no number gives way to the other. -/
def min (a b : S) : S := if b < a then b else if isNaN a then b else a

/-- The greater operand; an operand that is no number gives way to the other. -/
def max (a b : S) : S := if a < b then b else if isNaN a then b else a

/-- The value moved to the nearer end of `low..high` when it lies outside. A value that is no
number stays. -/
def clamp (x low high : S) : S := if x < low then low else if high < x then high else x

/-- An angle given in degrees, in radians. -/
def toRadians (angle : S) : S := angle * degree

/-- The representative of `a` modulo `b` that is not negative. -/
def wrap (a b : S) : S :=
  let rest := remainder a b
  if rest < 0 then rest + abs b else rest

/-- The nearest scalar to an integer. -/
def ofInt (n : Int) : S := if n < 0 then -(ofNat n.natAbs) else ofNat n.natAbs

/-- Truncation into `low..high`: values beyond an end give that end, and a value that is no
number gives zero. -/
def truncateInto (low high : Int) (x : S) : Int :=
  if isNaN x then 0
  else if x ≤ ofInt low then low
  else if ofInt high ≤ x then high
  else truncate x

end Scalar

end VectorMotion
