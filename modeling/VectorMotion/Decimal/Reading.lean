import VectorMotion.Scalar

/-!
# Reading numbers

How a number on the command line is read: an optional sign, digits with or without a point, and an
optional exponent; at least one digit has to stand before or behind the point. Infinity and the
value that is no number have names, in which case does not count. Nothing else may stand around
the number, not even a blank.
-/

namespace VectorMotion.Decimal

variable {S : Type} [Scalar S]

/-- The natural that digits stand for. -/
def ofDigits (digits : List Char) : Nat :=
  digits.foldl (fun value c => value * 10 + (c.toNat - '0'.toNat)) 0

/-- A sign, if one stands at the start of a text: whether it is a minus, and what is left. -/
def takeSign : List Char → Bool × List Char
  | '-' :: rest => (true, rest)
  | '+' :: rest => (false, rest)
  | text => (false, text)

/-- An integer without a point. -/
def integer? (text : String) : Option Int :=
  let (negative, digits) := takeSign text.toList
  if digits.isEmpty || !digits.all Char.isDigit then none
  else some (if negative then -(ofDigits digits : Int) else ofDigits digits)

/-- The exponent behind a number: zero where there is none. -/
def exponent? : List Char → Option Int
  | [] => some 0
  | mark :: rest =>
    if mark == 'e' || mark == 'E' then integer? (String.ofList rest) else none

/-- Exponents beyond this distance from the digits leave no finite number but zero. -/
def farthest : Nat := 400

/-- The number `digits · 10 ^ exponent`. An exponent that is out of any range is cut. -/
def composed (digits : List Char) (exponent : Int) : S :=
  let reach := farthest + digits.length
  Scalar.ofScientific (ofDigits digits) (decide (exponent < 0)) (min exponent.natAbs reach)

/-- A number without its sign. -/
def magnitude? (text : List Char) : Option S :=
  let whole := text.takeWhile Char.isDigit
  let rest := text.dropWhile Char.isDigit
  let (places, tail) :=
    match rest with
    | '.' :: rest => (rest.takeWhile Char.isDigit, rest.dropWhile Char.isDigit)
    | _ => ([], rest)
  if whole.isEmpty && places.isEmpty then none
  else (exponent? tail).map fun exponent => composed (whole ++ places) (exponent - places.length)

/-- A named value without its sign. -/
def named? (text : List Char) : Option S :=
  match String.ofList (text.map Char.toLower) with
  | "inf" | "infinity" => some (1 / 0)
  | "nan" => some (0 / 0)
  | _ => none

/-- The number that a text is. -/
def read? (text : String) : Option S :=
  let (negative, rest) := takeSign text.toList
  ((magnitude? rest).or (named? rest)).map fun size => if negative then -size else size

end VectorMotion.Decimal
