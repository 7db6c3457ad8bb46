import VectorMotion.Document.Shape
import VectorMotion.Scene.Transform

/-!
# Paints over time

Solid fills and strokes. Colours of a document may have components up to 255; they are brought
between zero and one before anything is tracked.
-/

namespace VectorMotion.Scene

variable {S : Type} [Scalar S]

/-- A component of a colour that is written up to 255. -/
def byteFraction (component : S) : S := component / 255

/-- A colour with components between zero and one. A colour is taken to be written up to 255 as
soon as one of its components besides the opacity is above one; its opacity is then brought down
only if it is above one itself. -/
def normalColor (color : Rgba S) : Rgba S :=
  if 1 < color.red || 1 < color.green || 1 < color.blue then
    { red := byteFraction color.red
      green := byteFraction color.green
      blue := byteFraction color.blue
      alpha := if 1 < color.alpha then byteFraction color.alpha else color.alpha }
  else color

/-- The track of a property that is a colour; black where it is left out. -/
def color (property : Document.Color S) : Track S (Rgba S) :=
  Track.ofProperty normalColor Rgba.black property

/-- Which points are inside an outline that crosses itself. -/
inductive FillRule where
  | nonZero
  | evenOdd
  deriving Repr, DecidableEq, Inhabited

/-- The rule of a document's code. -/
def FillRule.ofCode (code : Option Nat) : FillRule := if code == some 2 then evenOdd else nonZero

/-- How the end of a stroke looks. -/
inductive LineCap where
  | butt
  | round
  | square
  deriving Repr, DecidableEq, Inhabited

/-- The cap of a document's code. -/
def LineCap.ofCode : Nat → LineCap
  | 2 => round
  | 3 => square
  | _ => butt

/-- How a corner of a stroke looks. -/
inductive LineJoin where
  | miter
  | round
  | bevel
  deriving Repr, DecidableEq, Inhabited

/-- The join of a document's code. -/
def LineJoin.ofCode : Nat → LineJoin
  | 2 => round
  | 3 => bevel
  | _ => miter

/-- A fill with one colour. -/
structure Fill (S : Type) where
  color : Track S (Rgba S)
  percentOpacity : Track S S
  rule : FillRule
  deriving Repr, Inhabited

namespace Fill

/-- The fill that a document describes. -/
def ofDocument (authored : Document.Fill S) : Fill S :=
  { color := Scene.color authored.color
    percentOpacity := amount 100 authored.opacity
    rule := FillRule.ofCode authored.rule }

/-- The fill brought to a time. -/
def update (fill : Fill S) (time : S) : Fill S :=
  { fill with
    color := fill.color.update time
    percentOpacity := fill.percentOpacity.update time }

/-- The opacity between zero and one. -/
def opacity (fill : Fill S) : S := fractionOf fill.percentOpacity.value

end Fill

/-- What an entry of a dash list is: a stretch that is drawn, one that is not, or the place at
which the pattern starts. -/
inductive DashRole where
  | dash
  | gap
  | offset
  deriving Repr, DecidableEq, Inhabited

/-- The role of a document's name for it. Entries with other names are passed over. -/
def DashRole.ofName : Option String → Option DashRole
  | some "d" | some "v" => some dash
  | some "g" => some gap
  | some "o" => some offset
  | _ => none

/-- An entry of a dash list. -/
structure DashEntry (S : Type) where
  role : DashRole
  length : Track S S
  deriving Repr, Inhabited

/-- An entry that a document describes. -/
def DashEntry.ofDocument (authored : Document.Dash S) : Option (DashEntry S) :=
  (DashRole.ofName authored.name).map fun role => ⟨role, amount 0 authored.value⟩

/-- Lengths that are drawn and left out by turns, and where in them a stroke starts. -/
structure DashPattern (S : Type) where
  lengths : List S
  offset : S
  deriving Repr, BEq, Inhabited

namespace DashPattern

/-- The length of the whole pattern. -/
def period (lengths : List S) : S := lengths.foldl (· + ·) 0

/-- An even number of lengths: a pattern of odd length is written twice, so that each turn of it
begins with a stretch that is drawn. -/
def evened (lengths : List S) : List S :=
  if lengths.length % 2 == 0 then lengths else lengths ++ lengths

/-- The pattern of some entries, with its offset brought into one period. There is none without a
stretch. Of several offsets the last counts. -/
def ofEntries (entries : List (DashRole × S)) : Option (DashPattern S) :=
  let stretches := entries.filterMap fun (role, length) =>
    if role == .offset then none else some length
  let offset := entries.foldl (fun offset (role, length) =>
    if role == .offset then length else offset) 0
  if stretches.isEmpty then none
  else
    let lengths := evened stretches
    let total := period lengths
    some ⟨lengths, if 0 < total then Scalar.wrap offset total else 0⟩

end DashPattern

/-- A stroke along an outline. -/
structure Stroke (S : Type) where
  color : Track S (Rgba S)
  percentOpacity : Track S S
  width : Track S S
  cap : LineCap
  join : LineJoin
  miterLimit : S
  dashes : List (DashEntry S)
  deriving Repr, Inhabited

namespace Stroke

/-- The stroke that a document describes. -/
def ofDocument (authored : Document.Stroke S) : Stroke S :=
  { color := Scene.color authored.color
    percentOpacity := amount 100 authored.opacity
    width := amount 1 authored.width
    cap := LineCap.ofCode authored.cap
    join := LineJoin.ofCode authored.join
    miterLimit := authored.miterLimit.getD 4
    dashes := authored.dashes.filterMap DashEntry.ofDocument }

/-- The stroke brought to a time. -/
def update (stroke : Stroke S) (time : S) : Stroke S :=
  { stroke with
    color := stroke.color.update time
    percentOpacity := stroke.percentOpacity.update time
    width := stroke.width.update time
    dashes := stroke.dashes.map fun entry => { entry with length := entry.length.update time } }

/-- The opacity between zero and one. -/
def opacity (stroke : Stroke S) : S := fractionOf stroke.percentOpacity.value

/-- The current dash pattern, if the stroke is dashed. -/
def dashPattern (stroke : Stroke S) : Option (DashPattern S) :=
  DashPattern.ofEntries (stroke.dashes.map fun entry => (entry.role, entry.length.value))

end Stroke

end VectorMotion.Scene
