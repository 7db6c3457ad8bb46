import VectorMotion.Scalar
import VectorMotion.Scalar.Binary

/-!
# Single and double precision scalars

The two scalars that the running program uses. Each operation is the one of the number type and
is rounded once; the hypotenuse is corrected by one step, because the plain root of the sum of
squares is off by one place too often for outlines that are printed in full.
-/

namespace VectorMotion

open Float.Model Float.Model.UnpackedFloat

/-- The size of the least whole number that is not below a fraction with a sign. -/
def ceilSize (sign : Sign) (size unit : Nat) : Nat :=
  match sign with
  | .negative => size / unit
  | .positive => (size + unit - 1) / unit

namespace Double

/-- Length over the legs `long ≥ short ≥ 0`, neither very large nor very small. The root of the
sum of squares is corrected by its residue, which is computed without cancellation. -/
def correctedHypot (long short : Float) : Float :=
  let root := Float.sqrt (long * long + short * short)
  if root ≤ 2.0 * short then
    let delta := root - short
    let residue := long * (2.0 * delta - long) + (delta - 2.0 * (long - short)) * delta
    root - residue / (2.0 * root)
  else
    let delta := root - long
    let residue :=
      2.0 * delta * (long - 2.0 * short) + ((4.0 * delta - short) * short + delta * delta)
    root - residue / (2.0 * root)

/-- A leg this many times shorter than the other does not change the length. -/
def negligible : Float := Float.scaleB 1.0 (-54)

/-- Length of the hypotenuse. Very large legs are scaled down and very small ones up, by a power
of two, so that no square overflows or vanishes. An infinite leg wins over a leg that is no
number. -/
def hypot (x y : Float) : Float :=
  let x := x.abs
  let y := y.abs
  if x.isInf || y.isInf then Float.scaleB 1.0 1024
  else if x.isNaN || y.isNaN then x + y
  else
    let long := if x < y then y else x
    let short := if x < y then x else y
    if short ≤ long * negligible then long + short
    else if Float.scaleB 1.0 511 < long then
      (correctedHypot (long.scaleB (-600)) (short.scaleB (-600))).scaleB 600
    else if short < Float.scaleB 1.0 (-459) then
      (correctedHypot (long.scaleB 600) (short.scaleB 600)).scaleB (-600)
    else correctedHypot long short

/-- What is left of `x` after whole multiples of `y` are taken away toward zero. There is none
for an infinite `x` or a zero `y`, and an infinite `y` takes nothing away. -/
def remainder (x y : Float) : Float :=
  match Binary.ofDouble? x, Binary.ofDouble? y with
  | some a, some b => if b.mantissa == 0 then 0.0 / 0.0 else (a.remainder b).toDouble
  | some _, none => if y.isNaN then y else x
  | none, _ => 0.0 / 0.0

/-- Half a turn in radians. -/
def pi : Float := 3.14159265358979323846264338327950288

/-- The nearest value to a whole number, given as sign and size. Zero keeps its sign. -/
def whole (sign : Sign) (size : Nat) : Float :=
  .ofModel (.pack (UnpackedFloat.round .binary64 sign size 0))

/-- Least whole number that is not below the value. It has the sign of the value, also where it is
zero. A value without places behind the point is left as it is. -/
def ceil (x : Float) : Float :=
  match x.toModel.unpack with
  | .finite sign mantissa exponent _ =>
    if 0 ≤ exponent then x
    else whole sign (ceilSize sign mantissa (Nat.pow 2 exponent.natAbs))
  | _ => x

/-- The integer left when the fraction is cut off, in 64 bits. -/
def truncate (x : Float) : Int := x.toModel.toInt64.toInt

/-- The place of a value in the total order: its bits, with the magnitude of negative numbers
counted downward. A value that is no number comes before all numbers: arithmetic on numbers marks
it as negative, with bits beyond those of infinity. -/
def rank (x : Float) : Int :=
  let bits := x.toBits.toNat
  if x.isNaN then -0x8000000000000000
  else if bits < 0x8000000000000000 then bits
  else -((bits - 0x8000000000000000 : Nat) : Int) - 1

end Double

namespace Single

/-- Half a turn in radians. -/
def pi : Float32 := 3.14159265358979323846264338327950288

/-- The nearest value to a whole number, given as sign and size. Zero keeps its sign. -/
def whole (sign : Sign) (size : Nat) : Float32 :=
  .ofModel (.pack (UnpackedFloat.round .binary32 sign size 0))

/-- Least whole number that is not below the value. It has the sign of the value, also where it is
zero. A value without places behind the point is left as it is. -/
def ceil (x : Float32) : Float32 :=
  match x.toModel.unpack with
  | .finite sign mantissa exponent _ =>
    if 0 ≤ exponent then x
    else whole sign (ceilSize sign mantissa (Nat.pow 2 exponent.natAbs))
  | _ => x

/-- The integer left when the fraction is cut off, in 64 bits. -/
def truncate (x : Float32) : Int := x.toModel.toInt64.toInt

/-- The place of a value in the total order: its bits, with the magnitude of negative numbers
counted downward. A value that is no number comes before all numbers: arithmetic on numbers marks
it as negative, with bits beyond those of infinity. -/
def rank (x : Float32) : Int :=
  let bits := x.toBits.toNat
  if x.isNaN then -0x80000000
  else if bits < 0x80000000 then bits
  else -((bits - 0x80000000 : Nat) : Int) - 1

end Single

instance : Scalar Float where
  decideLt a b := Float.decLt a b
  decideLe a b := Float.decLe a b
  ofNat := Float.ofNat
  ofScientific := Float.ofScientific
  ofDouble x := x
  toDouble x := x
  truncate := Double.truncate
  abs := Float.abs
  floor := Float.floor
  ceil := Double.ceil
  round := Float.round
  sqrt := Float.sqrt
  hypot := Double.hypot
  sin := Float.sin
  cos := Float.cos
  tan := Float.tan
  atan2 := Float.atan2
  degree := Double.pi / 180.0
  remainder := Double.remainder
  precedes a b := Double.rank a ≤ Double.rank b

/-- The remainder and the hypotenuse of single precision numbers are taken in double precision,
where the first is exact and the second is rounded only once more. -/
instance : Scalar Float32 where
  decideLt a b := Float32.decLt a b
  decideLe a b := Float32.decLe a b
  ofNat := Float32.ofNat
  ofScientific := Float32.ofScientific
  ofDouble := Float.toFloat32
  toDouble := Float32.toFloat
  truncate := Single.truncate
  abs := Float32.abs
  floor := Float32.floor
  ceil := Single.ceil
  round := Float32.round
  sqrt := Float32.sqrt
  hypot a b := (Double.hypot a.toFloat b.toFloat).toFloat32
  sin := Float32.sin
  cos := Float32.cos
  tan := Float32.tan
  atan2 := Float32.atan2
  degree := Single.pi / 180.0
  remainder a b := (Double.remainder a.toFloat b.toFloat).toFloat32
  precedes a b := Single.rank a ≤ Single.rank b

instance : Widen Float32 Float where
  widen := Float32.toFloat
  narrow := Float.toFloat32

end VectorMotion
