import VectorMotion.Curve.Measure
import VectorMotion.Scalar.Floating

/-!
# Arc length by quadrature

The numerical measure in double precision. A line is measured by its ends and a quadratic curve in
closed form, where that is stable. Cubic curves, and nearly straight quadratic ones, are measured
by Gauss–Legendre quadrature; for cubics the number of points follows from an estimate of the
error, and a curve for which no rule is good enough is halved.

The parameter at a given length is found by the interpolate, truncate and project method, which
never needs more steps than bisection. Lengths between trial parameters are measured piece by
piece and added up.
-/

namespace VectorMotion.ArcLength

/-- A point or vector of an outline. -/
abbrev Point := Vec2 Float

/-- A quadrature rule on `[-1, 1]`: the weight and place of each point right of the middle. -/
abbrev Rule := List (Float × Float)

/-- The rule with eight points. -/
def eightPoints : Rule :=
  [(0.3626837833783620, 0.1834346424956498), (0.3137066458778873, 0.5255324099163290),
   (0.2223810344533745, 0.7966664774136267), (0.1012285362903763, 0.9602898564975363)]

/-- The rule with sixteen points. -/
def sixteenPoints : Rule :=
  [(0.1894506104550685, 0.0950125098376374), (0.1826034150449236, 0.2816035507792589),
   (0.1691565193950025, 0.4580167776572274), (0.1495959888165767, 0.6178762444026438),
   (0.1246289712555339, 0.7554044083550030), (0.0951585116824928, 0.8656312023878318),
   (0.0622535239386479, 0.9445750230732326), (0.0271524594117541, 0.9894009349916499)]

/-- The rule with twenty-four points. -/
def twentyFourPoints : Rule :=
  [(0.1279381953467522, 0.0640568928626056), (0.1258374563468283, 0.1911188674736163),
   (0.1216704729278034, 0.3150426796961634), (0.1155056680537256, 0.4337935076260451),
   (0.1074442701159656, 0.5454214713888396), (0.0976186521041139, 0.6480936519369755),
   (0.0861901615319533, 0.7401241915785544), (0.0733464814110803, 0.8200019859739029),
   (0.0592985849154368, 0.8864155270044011), (0.0442774388174198, 0.9382745520027328),
   (0.0285313886289337, 0.9747285559713095), (0.0123412297999872, 0.9951872199970213)]

/-- The length of a quadratic curve. -/
def quadLength (p c q : Point) : Float :=
  let bend := p - c.scale 2.0 + q
  let a := bend.squareLength
  let start := c - p
  let k := start.squareLength
  if a < 5e-4 * k then
    let one := (p.scale (-0.492943519233745) + c.scale 0.430331482911935 +
      q.scale 0.0626120363218102).length
    let two := ((q - p).scale 0.4444444444444444).length
    let three := (p.scale (-0.0626120363218102) - c.scale 0.430331482911935 +
      q.scale 0.492943519233745).length
    one + two + three
  else
    let b := 2.0 * bend.dot start
    let whole := (a + b + k).sqrt
    let inverse := a.pow (-0.5)
    let inverse3 := inverse * inverse * inverse
    let double := 2.0 * k.sqrt
    let base := b * inverse + double
    let smooth := 0.25 * inverse * inverse * b * (2.0 * whole - double) + whole
    if base < 1e-13 then smooth
    else
      smooth + 0.25 * inverse3 * (4.0 * k * a - b * b) *
        (((2.0 * a + b) * inverse + 2.0 * whole) / base).log

/-- The first derivative of a cubic curve in the middle, the second and half of the third, in the
scale in which the rules use them. -/
structure Derivatives where
  first : Point
  second : Point
  third : Point

/-- The derivatives of a cubic curve. -/
def Derivatives.of (p c c' q : Point) : Derivatives :=
  let d01 := c - p
  let d12 := c' - c
  let d23 := q - c'
  let dd1 := d12 - d01
  let dd2 := d23 - d12
  { first := (d01 + d23).scale 0.25 + d12.scale 0.5
    second := (dd2 + dd1).scale 0.5
    third := (dd2 - dd1).scale 0.25 }

/-- The length that a rule gives. -/
def Derivatives.byRule (d : Derivatives) (rule : Rule) : Float :=
  rule.foldl (fun sum (weight, x) =>
    let even := d.first + d.third.scale (x * x)
    let odd := d.second.scale x
    sum + weight * 1.5 * ((even + odd).length + (even - odd).length)) 0.0

/-- A measure of how fast the curve turns, from which the error of a rule is estimated. -/
def Derivatives.turning (d : Derivatives) : Float :=
  let term (weight x : Float) : Float :=
    weight * (d.second + d.third.scale (2.0 * x)).squareLength /
      (d.first + d.second.scale x + d.third.scale (x * x)).squareLength
  eightPoints.foldl (fun sum (weight, x) => sum + term weight (-x) + term weight x) 0.0

/-- The error of a rule is below its bound times the slack of the control polygon. -/
def withinAccuracy (estimate cap slack accuracy : Float) : Bool :=
  Scalar.min estimate cap * slack < accuracy

/-- The two halves of a cubic curve. -/
def halves (p c c' q : Point) : (Point × Point × Point × Point) × (Point × Point × Point × Point) :=
  let middle := Segment.cubicAt p c c' q 0.5
  ((p, (p + c).scale 0.5, (p + c.scale 2.0 + c').scale 0.25, middle),
   (middle, (c + c'.scale 2.0 + q).scale 0.25, (c' + q).scale 0.5, q))

/-- The length of a cubic curve, which may be halved `depth` more times. -/
def cubicLength : Nat → Point → Point → Point → Point → Float → Float
  | depth, p, c, c', q, accuracy =>
    let slack := (c - p).length + (c' - c).length + (q - c').length - (q - p).length
    let d := Derivatives.of p c c' q
    let turning := d.turning
    let cube := turning * turning * turning
    if withinAccuracy (cube * 2.5e-6) 3e-2 slack accuracy then d.byRule eightPoints
    else if withinAccuracy (cube * cube * 1.5e-11) 9e-3 slack accuracy then d.byRule sixteenPoints
    else if withinAccuracy (cube * cube * cube * 3.5e-16) 3.5e-3 slack accuracy then
      d.byRule twentyFourPoints
    else
      match depth with
      | 0 => d.byRule twentyFourPoints
      | depth + 1 =>
        let ((p0, c0, c0', q0), (p1, c1, c1', q1)) := halves p c c' q
        cubicLength depth p0 c0 c0' q0 (accuracy * 0.5) +
          cubicLength depth p1 c1 c1' q1 (accuracy * 0.5)

/-- How often a cubic curve may be halved. -/
def deepestHalving : Nat := 20

/-- The length of a segment to an accuracy. -/
def length (segment : Segment Float) (accuracy : Float) : Float :=
  match segment with
  | .line p q => (q - p).length
  | .quad p c q => quadLength p c q
  | .cubic p c c' q => cubicLength deepestHalving p c c' q accuracy

/-- A search for a parameter: the interval that holds it with the sign-checked distances at its
ends, the last trial and the length up to there, and the margin by which a step may stray from
bisection. -/
structure Search where
  low : Float
  high : Float
  lowDistance : Float
  highDistance : Float
  margin : Float
  trial : Float
  covered : Float

/-- `size` with the sign of `sign`. -/
def signedBy (size sign : Float) : Float :=
  if sign.toBits >>> 63 == 1 then -size.abs else size.abs

/-- The next trial: a step of false position, moved toward the middle and then into the margin
around it. -/
def Search.next (search : Search) (tolerance : Float) : Float :=
  let low := search.low
  let high := search.high
  let middle := 0.5 * (low + high)
  let reach := search.margin - 0.5 * (high - low)
  let secant := (search.highDistance * low - search.lowDistance * high) /
    (search.highDistance - search.lowDistance)
  let side := middle - secant
  let step := tolerance * ((high - low) * (high - low))
  let truncated := if step ≤ (middle - secant).abs then secant + signedBy step side else middle
  if (truncated - middle).abs ≤ reach then truncated else middle - signedBy reach side

/-- Runs a search for at most `steps` trials. Each trial measures only the piece between the last
trial and the new one. -/
def Search.run (segment : Segment Float) (goal inner accuracy : Float) :
    Nat → Search → Float
  | 0, search => 0.5 * (search.low + search.high)
  | steps + 1, search =>
    if search.high - search.low ≤ 2.0 * accuracy then 0.5 * (search.low + search.high)
    else
      let trial := search.next 0.2
      let covered :=
        if search.trial < trial then
          search.covered + length (segment.between search.trial trial) inner
        else search.covered - length (segment.between trial search.trial) inner
      let distance := covered - goal
      let margin := search.margin * 0.5
      if 0.0 < distance then
        run segment goal inner accuracy steps
          { search with high := trial, highDistance := distance, margin, trial, covered }
      else if distance < 0.0 then
        run segment goal inner accuracy steps
          { search with low := trial, lowDistance := distance, margin, trial, covered }
      else trial

/-- The parameter at which a curve has covered a length, to an accuracy of the length. -/
def curveParameterAt (segment : Segment Float) (goal accuracy : Float) : Float :=
  if goal ≤ 0.0 then 0.0
  else
    let total := length segment accuracy
    if total ≤ goal then 1.0
    else
      let relative := accuracy / total
      let pieces := 1.0 - Scalar.min relative.log2.ceil 0.0
      let inner := accuracy / pieces
      let bisections := Scalar.max ((1.0 / relative).log2.ceil - 1.0) 0.0
      let most := (1.0 + bisections).toUInt64.toNat
      let margin := relative.scaleB most
      Search.run segment goal inner relative (most + 2)
        { low := 0.0, high := 1.0, lowDistance := -goal, highDistance := total - goal, margin,
          trial := 0.0, covered := 0.0 }

/-- The parameter at which a segment has covered a length. -/
def parameterAt (segment : Segment Float) (goal accuracy : Float) : Float :=
  match segment with
  | .line p q => goal / (q - p).length
  | .quad .. | .cubic .. => curveParameterAt segment goal accuracy

end ArcLength

/-- Outlines are measured to this accuracy. -/
def ArcLength.outlineAccuracy : Float := 1e-4

instance : Measure Float where
  length segment := ArcLength.length segment ArcLength.outlineAccuracy
  parameterAt segment goal := ArcLength.parameterAt segment goal ArcLength.outlineAccuracy

end VectorMotion
