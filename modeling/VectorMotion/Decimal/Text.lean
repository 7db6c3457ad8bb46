import VectorMotion.Decimal.Shortest
import VectorMotion.Scalar

/-!
# Number text

How a number of the program is written. Reports and drawings write every digit in place and never
an exponent, so that a whole number has no fraction and a small one has its leading zeros.
Messages about a document quote numbers the way documents write them: with a point in any case,
and with an exponent when the number is very large or very small. The two formats also part where
two decimals serve a number equally well.
-/

namespace VectorMotion.Decimal

/-- The digits in place: zeros fill the gap between them and the point. -/
def Digits.positional (value : Digits) : String :=
  let text := (Nat.repr value.digits).toList
  let places := (-value.exponent).toNat
  let written :=
    if 0 ≤ value.exponent then text ++ List.replicate value.exponent.toNat '0'
    else if places < text.length then
      text.take (text.length - places) ++ '.' :: text.drop (text.length - places)
    else '0' :: '.' :: List.replicate (places - text.length) '0' ++ text
  String.ofList written

/-- The place of the leading digit. -/
def Digits.leading (value : Digits) : Int :=
  value.exponent + (Nat.repr value.digits).length - 1

/-- One digit before the point and the others behind it, then the exponent with its sign. -/
def Digits.scientific (value : Digits) : String :=
  let sign := if value.leading < 0 then '-' else '+'
  let exponent := sign :: (Nat.repr value.leading.natAbs).toList
  let mantissa :=
    match (Nat.repr value.digits).toList with
    | [] => []
    | [digit] => [digit]
    | digit :: rest => digit :: '.' :: rest
  String.ofList (mantissa ++ 'e' :: exponent)

/-- The digits as a document writes a number with a fraction. -/
def Digits.literal (value : Digits) : String :=
  if -5 ≤ value.leading && value.leading ≤ 15 then
    if 0 ≤ value.exponent then value.positional ++ ".0" else value.positional
  else value.scientific

/-- Signs the text of a magnitude. -/
def signed (negative : Bool) (text : String) : String :=
  if negative then "-" ++ text else text

/-- How numbers of the program are written. -/
structure Format where
  /-- Which of two equally near decimals is written. -/
  tie : Tie
  /-- Writes the digits of a magnitude. -/
  magnitude : Digits → String

namespace Format

/-- Every digit in place, as in reports and drawings. -/
def plain : Format := ⟨.upward, Digits.positional⟩

/-- As a document writes a number with a fraction. -/
def documentary : Format := ⟨.toEven, Digits.literal⟩

/-- The text of a stored number. -/
def text (format : Format) (layout : Binary.Layout) (value : Binary) : String :=
  signed value.negative
    (format.magnitude (if value.mantissa == 0 then ⟨0, 0⟩ else shortest format.tie layout value))

end Format

/-- A double precision number in place. -/
def ofDouble (x : Float) : String :=
  match Binary.ofDouble? x with
  | some value => Format.plain.text .double value
  | none => if x.isNaN then "NaN" else if x < 0.0 then "-inf" else "inf"

/-- A single precision number in place. -/
def ofSingle (x : Float32) : String :=
  match Binary.ofSingle? x with
  | some value => Format.plain.text .single value
  | none => if x.isNaN then "NaN" else if x < 0.0 then "-inf" else "inf"

/-- A finite double precision number as a document writes it. -/
def literal (x : Float) : String :=
  match Binary.ofDouble? x with
  | some value => Format.documentary.text .double value
  | none => ofDouble x

end VectorMotion.Decimal

namespace VectorMotion

/-- Scalars that are written in place in reports and drawings. -/
class Written (S : Type) where
  /-- The text of a scalar. -/
  text : S → String

instance : Written Float := ⟨Decimal.ofDouble⟩

instance : Written Float32 := ⟨Decimal.ofSingle⟩

end VectorMotion
