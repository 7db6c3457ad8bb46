/-!
# Binary form of rounded numbers

A finite single or double precision number is an integer times a power of two. This module reads
that integer and that power from the stored bits, so that exact questions about a rounded number
(its remainder, its decimal digits) become questions about naturals.
-/

namespace VectorMotion

/-- The value `±mantissa · 2 ^ exponent`. Zero keeps its sign. -/
structure Binary where
  negative : Bool
  mantissa : Nat
  exponent : Int
  deriving Repr, DecidableEq, Inhabited

namespace Binary

/-- Widths of a stored number: the bits of the fraction and of the exponent field. -/
structure Layout where
  fractionBits : Nat
  exponentBits : Nat

/-- Single precision. -/
def Layout.single : Layout := ⟨23, 8⟩

/-- Double precision. -/
def Layout.double : Layout := ⟨52, 11⟩

/-- The greatest exponent field. It marks values that are not finite. -/
def Layout.topField (layout : Layout) : Nat := Nat.pow 2 layout.exponentBits - 1

/-- Exponent of the last place of a number whose exponent field is one, the least normal one. -/
def Layout.leastExponent (layout : Layout) : Int :=
  2 - Nat.pow 2 (layout.exponentBits - 1) - layout.fractionBits

/-- The number stored in `bits`, and nothing where the bits store no finite number. A zero
exponent field has no hidden leading one and shares the exponent of field one. -/
def ofBits? (layout : Layout) (bits : Nat) : Option Binary :=
  let fraction := bits % Nat.pow 2 layout.fractionBits
  let field := bits / Nat.pow 2 layout.fractionBits % Nat.pow 2 layout.exponentBits
  let negative := bits / Nat.pow 2 (layout.fractionBits + layout.exponentBits) % 2 == 1
  if field == layout.topField then none
  else if field == 0 then some ⟨negative, fraction, layout.leastExponent⟩
  else some ⟨negative, Nat.pow 2 layout.fractionBits + fraction, layout.leastExponent + (field - 1)⟩

/-- A finite double precision number. -/
def ofDouble? (x : Float) : Option Binary := ofBits? .double x.toBits.toNat

/-- A finite single precision number. -/
def ofSingle? (x : Float32) : Option Binary := ofBits? .single x.toBits.toNat

/-- The double precision number of this value, for values that are one. -/
def toDouble (value : Binary) : Float :=
  let size := (Float.ofNat value.mantissa).scaleB value.exponent
  if value.negative then -size else size

/-- What is left of `a` after whole multiples of `b` are taken away toward zero. Both are brought
to the smaller of the two exponents, where the remainder is one of naturals, so the result is
exact. -/
def remainder (a b : Binary) : Binary :=
  let exponent := min a.exponent b.exponent
  let scaled (value : Binary) : Nat := value.mantissa * Nat.pow 2 (value.exponent - exponent).toNat
  ⟨a.negative, scaled a % scaled b, exponent⟩

end Binary

end VectorMotion
