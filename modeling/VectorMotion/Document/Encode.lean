import VectorMotion.Document.Animation
import VectorMotion.Document.Settings
import VectorMotion.Document.Shape

/-!
# Writing documents

How the parts of a document are written as JSON values again. Every field is written under its
name, also where it was left out, so a value that is written shows everything that was read. The
content of a property is written with the form it was recognised as. A number that is not finite
has no form in JSON and is written as `null`.
-/

namespace VectorMotion.Document

open Json

variable {S V : Type} [Scalar S]

/-- A measure. -/
def encodeScalar (x : S) : Value :=
  if Scalar.isFinite x then Value.fraction (Scalar.toDouble x) else Value.null

/-- A value that may be missing. -/
def encodeOptional (encode : V → Value) : Option V → Value
  | some value => encode value
  | none => Value.null

/-- A list. -/
def encodeList (encode : V → Value) (values : List V) : Value := .list (values.map encode)

/-- A pair of numbers. -/
def encodePair (v : Vec2 S) : Value := encodeList encodeScalar [v.x, v.y]

/-- A point of space. -/
def Triple.encode (v : Triple S) : Value := encodeList encodeScalar [v.x, v.y, v.z]

/-- A colour. -/
def encodeColor (c : Rgba S) : Value := encodeList encodeScalar [c.red, c.green, c.blue, c.alpha]

/-- A vertex list. -/
def Vertices.encode (vertices : Vertices S) : Value :=
  .ofMembers
    [("c", Value.boolean vertices.closed), ("i", encodeList encodePair vertices.arriving),
      ("o", encodeList encodePair vertices.leaving), ("v", encodeList encodePair vertices.points)]

/-- An easing handle. -/
def Handle.encode (handle : Handle S) : Value :=
  .ofMembers [("x", encodeScalar handle.x), ("y", encodeScalar handle.y)]

/-- A keyframe. -/
def Keyframe.encode (encode : V → Value) (key : Keyframe S V) : Value :=
  .ofMembers
    [("t", encodeScalar key.time), ("s", encodeOptional encode key.start),
      ("e", encodeOptional encode key.finish), ("i", encodeOptional Handle.encode key.easeIn),
      ("o", encodeOptional Handle.encode key.easeOut),
      ("to", encodeOptional (encodeList encodeScalar) key.tangentOut),
      ("ti", encodeOptional (encodeList encodeScalar) key.tangentIn),
      ("h", Value.boolean key.hold)]

/-- The content of a property, with its form. -/
def Content.encode (encode : V → Value) : Content S V → Value
  | .absent => Value.text "Default"
  | .fixed value => .ofMembers [("Static", encode value)]
  | .keyed keys => .ofMembers [("Animated", encodeList (Keyframe.encode encode) keys)]

/-- A property. -/
def Property.encode (encode : V → Value) (property : Property S V) : Value :=
  .ofMembers
    [("a", Value.natural property.animated), ("k", property.content.encode encode),
      ("ix", encodeOptional Value.natural property.index),
      ("x", encodeOptional Value.text property.expression),
      ("fromExpression", Value.boolean property.fromExpression)]

/-- A property that is a number. -/
def Amount.encode (amount : Amount S) : Value := Property.encode encodeScalar amount

/-- A property that is a point or a pair of scale factors. -/
def Point.encode (point : Point S) : Value := Property.encode Triple.encode point

/-- A property that is a colour. -/
def Color.encode (color : Color S) : Value := Property.encode encodeColor color

/-- A position. -/
def Position.encode : Position S → Value
  | .unified point => Point.encode point
  | .split x y => .ofMembers [("x", Amount.encode x), ("y", Amount.encode y)]

/-- The members of a transform. -/
def Transform.members (transform : Transform S) : List (String × Value) :=
  [("a", Point.encode transform.anchor), ("p", transform.position.encode),
    ("s", Point.encode transform.scale), ("r", Amount.encode transform.rotation),
    ("o", Amount.encode transform.opacity), ("sk", Amount.encode transform.skew),
    ("sa", Amount.encode transform.skewAxis)]

/-- A transform. -/
def Transform.encode (transform : Transform S) : Value := .ofMembers transform.members

/-- The step of a repeater, in one object with its transform. -/
def Step.encode (step : Step S) : Value :=
  .ofMembers
    (step.transform.members ++
      [("so", Amount.encode step.startOpacity), ("eo", Amount.encode step.endOpacity)])

/-- The items of a group. -/
def Group.encode (group : Group) : Value := .ofMembers [("it", .list group.items)]

/-- A rectangle. -/
def Rectangle.encode (shape : Rectangle S) : Value :=
  .ofMembers
    [("p", Point.encode shape.position), ("s", Point.encode shape.size),
      ("r", Amount.encode shape.roundness), ("d", Value.natural shape.direction)]

/-- An ellipse. -/
def Ellipse.encode (shape : Ellipse S) : Value :=
  .ofMembers
    [("p", Point.encode shape.position), ("s", Point.encode shape.size),
      ("d", Value.natural shape.direction)]

/-- A circle. -/
def Circle.encode (shape : Circle S) : Value :=
  .ofMembers
    [("p", Point.encode shape.position), ("r", Amount.encode shape.radius),
      ("d", Value.natural shape.direction)]

/-- A free-form outline. -/
def FreeForm.encode (shape : FreeForm S) : Value :=
  .ofMembers
    [("ks", Property.encode Vertices.encode shape.vertices), ("d", Value.natural shape.direction)]

/-- A fill. -/
def Fill.encode (fill : Fill S) : Value :=
  .ofMembers
    [("c", Color.encode fill.color), ("o", Amount.encode fill.opacity),
      ("r", encodeOptional Value.natural fill.rule)]

/-- A dash entry. -/
def Dash.encode (dash : Dash S) : Value :=
  .ofMembers [("n", encodeOptional Value.text dash.name), ("v", Amount.encode dash.value)]

/-- A stroke. -/
def Stroke.encode (stroke : Stroke S) : Value :=
  .ofMembers
    [("c", Color.encode stroke.color), ("w", Amount.encode stroke.width),
      ("o", Amount.encode stroke.opacity), ("lc", Value.natural stroke.cap),
      ("lj", Value.natural stroke.join), ("ml", encodeOptional encodeScalar stroke.miterLimit),
      ("d", encodeList Dash.encode stroke.dashes)]

/-- A gradient table. -/
def GradientTable.encode (table : GradientTable S) : Value :=
  .ofMembers
    [("p", Value.natural table.count), ("k", Property.encode (encodeList encodeScalar) table.stops)]

/-- A gradient fill. -/
def GradientFill.encode (fill : GradientFill S) : Value :=
  .ofMembers
    [("o", Amount.encode fill.opacity), ("s", Point.encode fill.start),
      ("e", Point.encode fill.finish), ("t", Value.natural fill.kind),
      ("h", Amount.encode fill.highlightLength), ("a", Amount.encode fill.highlightAngle),
      ("g", fill.table.encode), ("r", encodeOptional Value.natural fill.rule)]

/-- A trim. -/
def Trim.encode (trim : Trim S) : Value :=
  .ofMembers
    [("s", Amount.encode trim.start), ("e", Amount.encode trim.finish),
      ("o", Amount.encode trim.offset), ("m", Value.natural trim.mode)]

/-- A repeater. -/
def Repeater.encode (repeater : Repeater S) : Value :=
  .ofMembers
    [("c", Amount.encode repeater.copies), ("o", Amount.encode repeater.offset),
      ("m", Value.natural repeater.composite), ("tr", repeater.step.encode)]

/-- A label. -/
def Label.encode (label : Label) : Value :=
  .ofMembers
    [("nm", encodeOptional Value.text label.name),
      ("mn", encodeOptional Value.text label.matchName),
      ("hd", Value.boolean label.hidden), ("ao", Value.boolean label.autoOrient)]

/-- A layer. -/
def Layer.encode (layer : Layer S) : Value :=
  .ofMembers
    [("ty", Value.natural layer.kind), ("ind", encodeOptional Value.natural layer.index),
      ("parent", encodeOptional Value.natural layer.parent), ("ip", encodeScalar layer.inPoint),
      ("op", encodeScalar layer.outPoint), ("st", encodeScalar layer.startTime),
      ("ddd", Value.natural layer.threeD), ("bm", Value.natural layer.blendMode),
      ("sr", encodeScalar layer.stretch), ("td", Value.boolean layer.matteSource),
      ("tt", Value.natural layer.clipMode), ("ks", layer.transform.encode),
      ("refId", encodeOptional Value.text layer.asset), ("ef", .list layer.effects),
      ("shapes", .list layer.shapes)]

mutual
/-- An effect. -/
def Effect.encode : Effect → Value
  | .mk kind name matchName parts value =>
    .ofMembers
      [("ty", Value.natural kind), ("nm", encodeOptional Value.text name),
        ("mn", encodeOptional Value.text matchName), ("ef", .list (Effect.encodeAll parts)),
        ("v", value.getD Value.null)]

/-- Some effects. -/
def Effect.encodeAll : List Effect → List Value
  | [] => []
  | effect :: rest => Effect.encode effect :: Effect.encodeAll rest
end

/-- An asset. -/
def Asset.encode (asset : Asset S) : Value :=
  .ofMembers
    [("id", Value.text asset.id), ("nm", encodeOptional Value.text asset.name),
      ("w", encodeOptional encodeScalar asset.width),
      ("h", encodeOptional encodeScalar asset.height),
      ("u", encodeOptional Value.text asset.directory),
      ("p", encodeOptional Value.text asset.file),
      ("e", encodeOptional Value.natural asset.embedded)]

/-- A document. -/
def encode (document : Document S) : Value :=
  .ofMembers
    [("v", encodeOptional Value.text document.version),
      ("nm", encodeOptional Value.text document.name), ("ip", encodeScalar document.inPoint),
      ("op", encodeScalar document.outPoint), ("fr", encodeScalar document.frameRate),
      ("w", Value.natural document.width), ("h", Value.natural document.height),
      ("layers", .list document.layers), ("assets", encodeList Asset.encode document.assets)]

/-- A trim mode. -/
def encodeMode (mode : VectorMotion.Trim.Mode) : Value := Value.text mode.word

/-- Settings. -/
def encodeSettings (settings : VectorMotion.Trim.Settings) : Value :=
  .ofMembers [("trim_mode", encodeOptional encodeMode settings.mode)]

end VectorMotion.Document
