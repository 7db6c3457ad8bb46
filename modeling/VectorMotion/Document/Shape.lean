import VectorMotion.Document.Transform

/-!
# Authored shapes

The records of the shape kinds: outlines, paints, trims and repeaters. Every field may be left
out.
-/

namespace VectorMotion.Document

open Json

variable {S : Type} [Scalar S]

/-- The items of a group, which are read one at a time when the group is built. -/
structure Group where
  items : List Value := []
  deriving Repr, Inhabited

namespace Group

/-- The fields of a group. -/
def fields : List (Record.Field Group) :=
  [ .of "it" (Decoder.list Source.toValue) fun items record => { record with items } ]

/-- Reads a group. -/
def decode : Decoder Group := Record.decode "GroupShape" {} fields

end Group

/-- A rectangle around a position. A direction other than zero traces it backwards. -/
structure Rectangle (S : Type) where
  position : Point S := {}
  size : Point S := {}
  roundness : Amount S := {}
  direction : Nat := 0
  deriving Repr, Inhabited

namespace Rectangle

/-- The fields of a rectangle. -/
def fields : List (Record.Field (Rectangle S)) :=
  [ .of "p" Point.decode fun position record => { record with position },
    .of "s" Point.decode fun size record => { record with size },
    .of "r" Amount.decode fun roundness record => { record with roundness },
    .of "d" Decoder.code fun direction record => { record with direction } ]

/-- Reads a rectangle. -/
def decode : Decoder (Rectangle S) := Record.decode "RectShape" {} fields

end Rectangle

/-- An ellipse in a box around a position. -/
structure Ellipse (S : Type) where
  position : Point S := {}
  size : Point S := {}
  direction : Nat := 0
  deriving Repr, Inhabited

namespace Ellipse

/-- The fields of an ellipse. -/
def fields : List (Record.Field (Ellipse S)) :=
  [ .of "p" Point.decode fun position record => { record with position },
    .of "s" Point.decode fun size record => { record with size },
    .of "d" Decoder.code fun direction record => { record with direction } ]

/-- Reads an ellipse. -/
def decode : Decoder (Ellipse S) := Record.decode "EllipseShape" {} fields

end Ellipse

/-- A full circle around a position. -/
structure Circle (S : Type) where
  position : Point S := {}
  radius : Amount S := {}
  direction : Nat := 0
  deriving Repr, Inhabited

namespace Circle

/-- The fields of a circle. -/
def fields : List (Record.Field (Circle S)) :=
  [ .of "p" Point.decode fun position record => { record with position },
    .of "r" Amount.decode fun radius record => { record with radius },
    .of "d" Decoder.code fun direction record => { record with direction } ]

/-- Reads a circle. -/
def decode : Decoder (Circle S) := Record.decode "RoundShape" {} fields

end Circle

/-- A free-form outline. -/
structure FreeForm (S : Type) where
  vertices : Property S (Vertices S) := {}
  direction : Nat := 0
  deriving Repr, Inhabited

namespace FreeForm

/-- The fields of a free-form outline. -/
def fields : List (Record.Field (FreeForm S)) :=
  [ .of "ks" (Property.decode Vertices.decode) fun vertices record => { record with vertices },
    .of "d" Decoder.code fun direction record => { record with direction } ]

/-- Reads a free-form outline. -/
def decode : Decoder (FreeForm S) := Record.decode "PathShape" {} fields

end FreeForm

/-- A solid fill. -/
structure Fill (S : Type) where
  color : Color S := {}
  opacity : Amount S := {}
  rule : Option Nat := none
  deriving Repr, Inhabited

namespace Fill

/-- The fields of a fill. -/
def fields : List (Record.Field (Fill S)) :=
  [ .of "c" Color.decode fun color record => { record with color },
    .of "o" Amount.decode fun opacity record => { record with opacity },
    .of "r" (Decoder.optional Decoder.code) fun rule record => { record with rule } ]

/-- Reads a fill. -/
def decode : Decoder (Fill S) := Record.decode "FillShape" {} fields

end Fill

/-- One entry of a dash pattern; its name says whether it is a dash, a gap or the offset. -/
structure Dash (S : Type) where
  name : Option String := none
  value : Amount S := {}
  deriving Repr, Inhabited

namespace Dash

/-- The fields of a dash entry. -/
def fields : List (Record.Field (Dash S)) :=
  [ .of "n" (Decoder.optional Decoder.text) fun name record => { record with name },
    .of "v" Amount.decode fun value record => { record with value } ]

/-- Reads a dash entry. -/
def decode : Decoder (Dash S) := Record.decode "DashProperty" {} fields

end Dash

/-- A stroke. -/
structure Stroke (S : Type) where
  color : Color S := {}
  width : Amount S := {}
  opacity : Amount S := {}
  cap : Nat := 0
  join : Nat := 0
  miterLimit : Option S := none
  dashes : List (Dash S) := []
  deriving Repr, Inhabited

namespace Stroke

/-- The fields of a stroke. -/
def fields : List (Record.Field (Stroke S)) :=
  [ .of "c" Color.decode fun color record => { record with color },
    .of "w" Amount.decode fun width record => { record with width },
    .of "o" Amount.decode fun opacity record => { record with opacity },
    .of "lc" Decoder.code fun cap record => { record with cap },
    .of "lj" Decoder.code fun join record => { record with join },
    .of "ml" (Decoder.optional Decoder.scalar) fun miterLimit record =>
      { record with miterLimit },
    .of "d" (Decoder.list Dash.decode) fun dashes record => { record with dashes } ]

/-- Reads a stroke. -/
def decode : Decoder (Stroke S) := Record.decode "StrokeShape" {} fields

end Stroke

/-- The colours of a gradient: a flat table of numbers, which begins with `count` colour stops of
four numbers each. -/
structure GradientTable (S : Type) where
  count : Nat := 0
  stops : Property S (List S) := {}
  deriving Repr, Inhabited

namespace GradientTable

/-- The fields of a gradient table. -/
def fields : List (Record.Field (GradientTable S)) :=
  [ .of "p" Decoder.index fun count record => { record with count },
    .of "k" (Property.decode (Decoder.list Decoder.scalar)) fun stops record =>
      { record with stops } ]

/-- Reads a gradient table. -/
def decode : Decoder (GradientTable S) := Record.decode "GradientColors" {} fields

end GradientTable

/-- A fill with a gradient. -/
structure GradientFill (S : Type) where
  opacity : Amount S := {}
  start : Point S := {}
  finish : Point S := {}
  kind : Nat := 1
  highlightLength : Amount S := {}
  highlightAngle : Amount S := {}
  table : GradientTable S := {}
  rule : Option Nat := none
  deriving Repr, Inhabited

namespace GradientFill

/-- The fields of a gradient fill. -/
def fields : List (Record.Field (GradientFill S)) :=
  [ .of "o" Amount.decode fun opacity record => { record with opacity },
    .of "s" Point.decode fun start record => { record with start },
    .of "e" Point.decode fun finish record => { record with finish },
    .of "t" Decoder.code fun kind record => { record with kind },
    .of "h" Amount.decode fun highlightLength record => { record with highlightLength },
    .of "a" Amount.decode fun highlightAngle record => { record with highlightAngle },
    .of "g" GradientTable.decode fun table record => { record with table },
    .of "r" (Decoder.optional Decoder.code) fun rule record => { record with rule } ]

/-- Reads a gradient fill. -/
def decode : Decoder (GradientFill S) := Record.decode "GradientFillShape" {} fields

end GradientFill

/-- A trim of the outlines around it: start and end in percent, an offset in degrees. -/
structure Trim (S : Type) where
  start : Amount S := {}
  finish : Amount S := {}
  offset : Amount S := {}
  mode : Nat := 0
  deriving Repr, Inhabited

namespace Trim

/-- The fields of a trim. -/
def fields : List (Record.Field (Trim S)) :=
  [ .of "s" Amount.decode fun start record => { record with start },
    .of "e" Amount.decode fun finish record => { record with finish },
    .of "o" Amount.decode fun offset record => { record with offset },
    .of "m" Decoder.code fun mode record => { record with mode } ]

/-- Reads a trim. -/
def decode : Decoder (Trim S) := Record.decode "TrimShape" {} fields

end Trim

/-- A repeater of the shapes before it. -/
structure Repeater (S : Type) where
  copies : Amount S := {}
  offset : Amount S := {}
  composite : Nat := 0
  step : Step S := {}
  deriving Repr, Inhabited

namespace Repeater

/-- The fields of a repeater. -/
def fields : List (Record.Field (Repeater S)) :=
  [ .of "c" Amount.decode fun copies record => { record with copies },
    .of "o" Amount.decode fun offset record => { record with offset },
    .of "m" Decoder.code fun composite record => { record with composite },
    .of "tr" Step.decode fun step record => { record with step } ]

/-- Reads a repeater. -/
def decode : Decoder (Repeater S) := Record.decode "RepeaterShape" {} fields

end Repeater

end VectorMotion.Document
