import VectorMotion.Document.Values

/-!
# Properties

An attribute of a document: a value that is left out, fixed, or given at keyframes. What stands
for the value is read leniently. Whatever fits none of the three forms counts as left out, so a
property never fails because of its value, only because of the fields around it.

Keyframes are tried before a fixed value, because a record may also be written as a list: a list
of numbers is a colour, but the list of one list of numbers is a keyframe.
-/

namespace VectorMotion.Document

open Json

variable {S V : Type} [Scalar S]

/-- One control point of the curve that eases a span of time. -/
structure Handle (S : Type) where
  x : S
  y : S
  deriving Repr, Inhabited

namespace Handle

/-- The number that a component of a handle stands for: itself, or the first of a list, which
gives one for each dimension. -/
def component? : Value → Option S
  | .atom (.number value) => some (Scalar.ofDouble value.toDouble)
  | .list (first :: _) => component? first
  | _ => none

/-- A handle from its two components. -/
def ofComponents? (x y : Option Value) : Option (Handle S) := do
  let x ← x.bind component?
  let y ← y.bind component?
  return ⟨x, y⟩

/-- A handle from an object with members `x` and `y`, or from a list of two or more. -/
def ofValue? : Value → Option (Handle S)
  | .object members => ofComponents? (members.lookup "x") (members.lookup "y")
  | .list (x :: y :: _) => ofComponents? (some x) (some y)
  | _ => none

/-- Reads a handle. -/
def decode : Decoder (Handle S) := fun source => do
  match ofValue? (← source.toValue) with
  | some handle => return handle
  | none => .error .noHandle

end Handle

/-- A value at a time. `start` is the value from `time` on and `finish` the one that is reached at
the next keyframe; either may be left out. `easeOut` and `easeIn` shape the time of the span that
begins here, `tangentOut` and `tangentIn` bend its way through the plane, and `hold` keeps the
start value until the next keyframe. -/
structure Keyframe (S V : Type) where
  time : S
  start : Option V := none
  finish : Option V := none
  easeIn : Option (Handle S) := none
  easeOut : Option (Handle S) := none
  tangentOut : Option (List S) := none
  tangentIn : Option (List S) := none
  hold : Bool := false
  deriving Repr, Inhabited

namespace Keyframe

/-- The first of a list of values. -/
def firstOf? (decode : Decoder V) (value : Value) : Option V :=
  match (Decoder.list decode).ofValue value with
  | .ok (first :: _) => some first
  | _ => none

/-- Whether a value is a list that begins with an object, as the value of a structured keyframe is
wrapped. -/
def isWrapped : Value → Bool
  | .list (.object _ :: _) => true
  | _ => false

/-- The value of a keyframe: itself or the first of a list. The list is tried first when it wraps
an object, for then it could also be taken for a record in the form of a list. -/
def valueOf? (decode : Decoder V) (value : Value) : Option V :=
  if value.isNull then none
  else
    let wrapped := if isWrapped value then firstOf? decode value else none
    match wrapped with
    | some first => some first
    | none =>
      match decode.ofValue value with
      | .ok direct => some direct
      | .error _ => firstOf? decode value

/-- Reads the value of a keyframe. One that does not fit is left out. -/
def decodeValue (decode : Decoder V) : Decoder (Option V) := fun source =>
  valueOf? decode <$> source.toValue

/-- The fields of a keyframe. -/
def fields (decode : Decoder V) : List (Record.Field (Keyframe S V)) :=
  [ .must "t" Decoder.scalar fun time record => { record with time },
    .of "s" (decodeValue decode) fun start record => { record with start },
    .of "e" (decodeValue decode) fun finish record => { record with finish },
    .of "i" (Decoder.optional Handle.decode) fun easeIn record => { record with easeIn },
    .of "o" (Decoder.optional Handle.decode) fun easeOut record => { record with easeOut },
    .of "to" (Decoder.optional (Decoder.list Decoder.scalar)) fun tangentOut record =>
      { record with tangentOut },
    .of "ti" (Decoder.optional (Decoder.list Decoder.scalar)) fun tangentIn record =>
      { record with tangentIn },
    .of "h" Decoder.switch fun hold record => { record with hold } ]

/-- Reads a keyframe. -/
def decode (decodeV : Decoder V) : Decoder (Keyframe S V) :=
  Record.decode "Keyframe" { time := 0 } (fields decodeV)

end Keyframe

/-- What a property holds. -/
inductive Content (S V : Type) where
  /-- No value; the default of the attribute counts. -/
  | absent
  /-- The same value at every time. -/
  | fixed (value : V)
  /-- Values at keyframes. -/
  | keyed (keys : List (Keyframe S V))
  deriving Repr, Inhabited

namespace Content

/-- The content that a value stands for: keyframes, else a fixed value, else the first of a list
of fixed values, else none. -/
def ofValue (decode : Decoder V) (value : Value) : Content S V :=
  if value.isNull then .absent
  else
    match (Decoder.list (Keyframe.decode decode)).ofValue value with
    | .ok keys => .keyed keys
    | .error _ =>
      match decode.ofValue value with
      | .ok direct => .fixed direct
      | .error _ =>
        match Keyframe.firstOf? decode value with
        | some first => .fixed first
        | none => .absent

/-- Reads the content of a property. -/
def decode (decodeV : Decoder V) : Decoder (Content S V) := fun source =>
  ofValue decodeV <$> source.toValue

end Content

/-- A property. `animated` is the exporter's flag, which the content itself decides. The
expression, if there is one, is the text of a program that would compute the value;
`fromExpression` marks a property that was put in place of one. -/
structure Property (S V : Type) where
  animated : Nat := 0
  content : Content S V := .absent
  index : Option Nat := none
  expression : Option String := none
  fromExpression : Bool := false
  deriving Repr, Inhabited

namespace Property

/-- The fields of a property. -/
def fields (decode : Decoder V) : List (Record.Field (Property S V)) :=
  [ .of "a" Decoder.code fun animated record => { record with animated },
    .of "k" (Content.decode decode) fun content record => { record with content },
    .of "ix" (Decoder.optional Decoder.index) fun index record => { record with index },
    .of "x" (Decoder.optional Decoder.text) fun expression record => { record with expression },
    .of "fromExpression" Decoder.boolean fun fromExpression record =>
      { record with fromExpression } ]

/-- Reads a property. -/
def decode (decodeV : Decoder V) : Decoder (Property S V) :=
  Record.decode "Property" {} (fields decodeV)

end Property

/-- A property that is a number. -/
abbrev Amount (S : Type) := Property S S

/-- A property that is a point. -/
abbrev Point (S : Type) := Property S (Triple S)

/-- A property that is a colour. -/
abbrev Color (S : Type) := Property S (Rgba S)

/-- Reads a property that is a number. -/
def Amount.decode : Decoder (Amount S) := Property.decode Decoder.scalar

/-- Reads a property that is a point. -/
def Point.decode : Decoder (Point S) := Property.decode Triple.decodePoint

/-- Reads a property that is a pair of scale factors. -/
def Point.decodeFactors : Decoder (Point S) := Property.decode Triple.decodeFactors

/-- Reads a property that is a colour. -/
def Color.decode : Decoder (Color S) := Property.decode decodeColor

end VectorMotion.Document
