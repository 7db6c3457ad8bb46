import VectorMotion.Scalar.Binary

/-!
# Shortest decimals

A rounded number is written with the fewest significant digits that still read back as the same
number, and with the nearest such digits where several serve. Two may be equally near; which of
them is written is up to the format, a `Tie`. A decimal reads back exactly when it lies in the
interval of reals that round to the number, so the search is over that interval: it tries the
decimal grids from the coarsest to finer ones and stops at the first grid with a point inside.

All arithmetic is on naturals. The interval's ends, and the number itself, are counted in
quarters of its last place, which also measures the narrow gap below a power of two.
-/

namespace VectorMotion.Decimal

/-- The decimal `digits · 10 ^ exponent`. -/
structure Digits where
  digits : Nat
  exponent : Int
  deriving Repr, DecidableEq, Inhabited

/-- Which of two equally near neighbours on a grid is taken. -/
inductive Tie where
  /-- The upper one. -/
  | upward
  /-- The one with an even last digit. -/
  | toEven
  deriving Repr, DecidableEq, Inhabited

/-- Whether the upper neighbour is taken, where `below` counts the steps to the lower one. -/
def Tie.goesUp : Tie → Nat → Bool
  | upward, _ => true
  | toEven, below => below % 2 == 1

/-- The reals that round to `middle · 2 ^ exponent`, from `low` to `high` in the same unit. The
ends belong to it when `closed`: a value halfway between two numbers rounds to the one whose
mantissa is even. -/
structure Interval where
  low : Nat
  middle : Nat
  high : Nat
  exponent : Int
  closed : Bool
  deriving Repr, DecidableEq

/-- The interval of a positive number. Below a power of two that is not the least normal one,
numbers lie twice as close together. -/
def Interval.around (layout : Binary.Layout) (value : Binary) : Interval :=
  let power := value.mantissa == Nat.pow 2 layout.fractionBits
  let narrow := power && value.exponent != layout.leastExponent
  { low := 4 * value.mantissa - (if narrow then 1 else 2)
    middle := 4 * value.mantissa
    high := 4 * value.mantissa + 2
    exponent := value.exponent - 2
    closed := value.mantissa % 2 == 0 }

namespace Interval

/-- A point of the interval's unit, measured in steps of `10 ^ place`, is this numerator over
`stepDenominator`. -/
def stepNumerator (interval : Interval) (place : Int) : Nat :=
  Nat.pow 2 interval.exponent.toNat * Nat.pow 10 (-place).toNat

/-- See `stepNumerator`. -/
def stepDenominator (interval : Interval) (place : Int) : Nat :=
  Nat.pow 2 (-interval.exponent).toNat * Nat.pow 10 place.toNat

/-- Whether the grid point `steps · 10 ^ place` lies in the interval. -/
def holds (interval : Interval) (place : Int) (steps : Nat) : Bool :=
  let point := steps * interval.stepDenominator place
  let low := interval.low * interval.stepNumerator place
  let high := interval.high * interval.stepNumerator place
  if interval.closed then low ≤ point && point ≤ high else low < point && point < high

/-- The point of the grid with step `10 ^ place` that lies in the interval, the nearer one when
both neighbours of the number do. If any point of the grid is inside, so is one of these two. -/
def gridPoint? (tie : Tie) (interval : Interval) (place : Int) : Option Nat :=
  let middle := interval.middle * interval.stepNumerator place
  let step := interval.stepDenominator place
  let below := middle / step
  let above := below + 1
  match interval.holds place below, interval.holds place above with
  | true, true =>
    let fromBelow := middle - below * step
    let toAbove := above * step - middle
    let up := toAbove < fromBelow || toAbove == fromBelow && tie.goesUp below
    some (if up then above else below)
  | true, false => some below
  | false, true => some above
  | false, false => none

/-- A place no lower than that of the leading digit: one tenth of a bit count that is never too
small, rounded up. -/
def leadingPlace (interval : Interval) : Int :=
  ((interval.high.log2 : Int) + 1 + interval.exponent) * 30103 / 100000 + 1

/-- Searches `count` grids downward from `place`; the last one serves in any case. -/
def search (tie : Tie) (interval : Interval) : Nat → Int → Digits
  | 0, place =>
    ⟨interval.middle * interval.stepNumerator place / interval.stepDenominator place, place⟩
  | count + 1, place =>
    match gridPoint? tie interval place with
    | some steps => ⟨steps, place⟩
    | none => search tie interval count (place - 1)

end Interval

/-- Digits that always suffice, counted from a leading place that may be two too high. -/
def mostDigits : Nat := 20

/-- The shortest decimal of a positive number. -/
def shortest (tie : Tie) (layout : Binary.Layout) (value : Binary) : Digits :=
  let interval := Interval.around layout value
  interval.search tie mostDigits interval.leadingPlace

end VectorMotion.Decimal
