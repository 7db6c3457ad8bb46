import VectorMotion.Scene.Paint

/-!
# Gradients over time

A gradient is authored as a flat table: first its colour stops, four numbers each, then its
opacity stops, two numbers each. For drawing, both ramps are evaluated at every offset that occurs
in either of them, so that a drawn stop has a colour and an opacity.
-/

namespace VectorMotion.Scene

variable {S V : Type} [Scalar S]

/-- A stop of a gradient as it is drawn. -/
structure GradientStop (S : Type) where
  offset : S
  color : Rgba S
  deriving Repr, BEq, Inhabited

namespace GradientStop

/-- A stop of one ramp: its offset and its value. -/
abbrev RampStop (S V : Type) := S × V

/-- Two stops between which a value lies, and how far it is from the first to the second. -/
structure RampPlace (S V : Type) where
  low : V
  high : V
  ratio : S

/-- The place of an offset among stops from `low` on: between the first neighbours that enclose
it, or else at the last stop. Between neighbours at one offset the first counts. -/
def placeAfter (offset : S) : RampStop S V → List (RampStop S V) → RampPlace S V
  | low, [] => ⟨low.2, low.2, 0⟩
  | low, high :: rest =>
    if low.1 ≤ offset && offset ≤ high.1 then
      let range := high.1 - low.1
      ⟨low.2, high.2, if range == 0 then 0 else (offset - low.1) / range⟩
    else placeAfter offset high rest

/-- The place of an offset on a ramp. Everything up to the first stop has its value. -/
def place? (ramp : List (RampStop S V)) (offset : S) : Option (RampPlace S V) :=
  match ramp with
  | [] => none
  | first :: rest =>
    if offset ≤ first.1 then some ⟨first.2, (rest.headD first).2, 0⟩
    else some (placeAfter offset first rest)

/-- The value of a ramp of colours; white where there is none. -/
def colorAt (ramp : List (RampStop S (Rgba S))) (offset : S) : Rgba S :=
  match place? ramp offset with
  | some place => place.low.lerp place.high place.ratio
  | none => ⟨1, 1, 1, 1⟩

/-- The value of a ramp of opacities; opaque where there is none. -/
def alphaAt (ramp : List (RampStop S S)) (offset : S) : S :=
  match place? ramp offset with
  | some place => Blend.number place.low place.high place.ratio
  | none => 1

/-- Colour stops, of four numbers each. Numbers that are left over do not count. -/
def colorRamp : List S → List (RampStop S (Rgba S))
  | offset :: red :: green :: blue :: rest => (offset, ⟨red, green, blue, 1⟩) :: colorRamp rest
  | _ => []

/-- Opacity stops, of two numbers each. A number that is left over does not count. -/
def alphaRamp : List S → List (RampStop S S)
  | offset :: alpha :: rest => (offset, alpha) :: alphaRamp rest
  | _ => []

/-- Leaves out what repeats the value in front of it. -/
def withoutRepeats : S → List S → List S
  | _, [] => []
  | last, next :: rest =>
    if next == last then withoutRepeats last rest else next :: withoutRepeats next rest

/-- The offsets of both ramps in ascending order, each once. -/
def mergedOffsets (colors : List (RampStop S (Rgba S))) (alphas : List (RampStop S S)) : List S :=
  match (colors.map (·.1) ++ alphas.map (·.1)).mergeSort Scalar.precedes with
  | [] => []
  | first :: rest => first :: withoutRepeats first rest

/-- The stops that a table describes, of which `count` are colour stops. -/
def expand (table : List S) (count : Nat) : List (GradientStop S) :=
  let colors := colorRamp (table.take (count * 4))
  let alphas := alphaRamp (table.drop (count * 4))
  if alphas.isEmpty then colors.map fun (offset, color) => ⟨offset, color⟩
  else
    (mergedOffsets colors alphas).map fun offset =>
      ⟨offset, { colorAt colors offset with alpha := alphaAt alphas offset }⟩

end GradientStop

/-- The geometry of a gradient. -/
inductive GradientKind where
  | linear
  | radial
  deriving Repr, DecidableEq, Inhabited

/-- The kind of a document's code. -/
def GradientKind.ofCode (code : Nat) : GradientKind := if code == 2 then radial else linear

/-- A fill with a gradient. The highlight of a radial one is given by its distance from the centre
in percent of the radius and its angle in degrees. -/
structure GradientFill (S : Type) where
  kind : GradientKind
  start : Track S (Vec2 S)
  finish : Track S (Vec2 S)
  highlightLength : Track S S
  highlightAngle : Track S S
  percentOpacity : Track S S
  /-- How many colour stops the table begins with. -/
  colorCount : Nat
  table : Track S (List S)
  /-- The stops that the table currently describes. -/
  stops : List (GradientStop S)
  rule : FillRule
  deriving Repr, Inhabited

namespace GradientFill

/-- The gradient that a document describes. -/
def ofDocument (authored : Document.GradientFill S) : GradientFill S :=
  let table := Track.ofProperty id [] authored.table.stops
  { kind := GradientKind.ofCode authored.kind
    start := point Vec2.zero authored.start
    finish := point Vec2.zero authored.finish
    highlightLength := amount 0 authored.highlightLength
    highlightAngle := amount 0 authored.highlightAngle
    percentOpacity := amount 100 authored.opacity
    colorCount := authored.table.count
    table
    stops := GradientStop.expand table.value authored.table.count
    rule := FillRule.ofCode authored.rule }

/-- The gradient brought to a time. The stops of a table that does not change are kept. -/
def update (gradient : GradientFill S) (time : S) : GradientFill S :=
  let table := gradient.table.update time
  { gradient with
    start := gradient.start.update time
    finish := gradient.finish.update time
    highlightLength := gradient.highlightLength.update time
    highlightAngle := gradient.highlightAngle.update time
    percentOpacity := gradient.percentOpacity.update time
    table
    stops :=
      if gradient.table.animated then GradientStop.expand table.value gradient.colorCount
      else gradient.stops }

/-- The opacity between zero and one. -/
def opacity (gradient : GradientFill S) : S := fractionOf gradient.percentOpacity.value

/-- The distance from the centre to the edge of a radial gradient. -/
def radius (gradient : GradientFill S) : S := gradient.start.value.distance gradient.finish.value

/-- The point of a radial gradient that is highlighted: on a ray from the centre, whose angle is
counted from the direction of the end point, and always inside. -/
def focus (gradient : GradientFill S) : Vec2 S :=
  let center := gradient.start.value
  let reach := gradient.finish.value - center
  let angle := Scalar.atan2 reach.y reach.x + Scalar.toRadians gradient.highlightAngle.value
  let share := Scalar.clamp (gradient.highlightLength.value / 100) (-0.99) 0.99
  center + (Vec2.mk (Scalar.cos angle) (Scalar.sin angle)).scale (gradient.radius * share)

end GradientFill

end VectorMotion.Scene
