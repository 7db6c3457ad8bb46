import VectorMotion.Decimal.Text
import VectorMotion.Render.Canvas
import VectorMotion.Svg.Markup

/-!
# Drawings as markup

How a drawing is written: outlines as path data, colours by their three bytes, maps by their six
coefficients. A document is the drawing's elements within one tag that gives its size, behind the
definitions of its gradients.
-/

namespace VectorMotion.Svg

open Scene Render

variable {S P : Type} [Scalar S] [Scalar P] [Widen S P] [Measure P] [Written S] [Written P]

/-- Two coordinates. -/
def pointText (p : Vec2 P) : String := Written.text p.x ++ "," ++ Written.text p.y

/-- One drawing instruction. -/
def elementText : PathElement P → String
  | .move p => "M" ++ pointText p
  | .line p => "L" ++ pointText p
  | .quad c p => "Q" ++ pointText c ++ " " ++ pointText p
  | .cubic c c' p => "C" ++ pointText c ++ " " ++ pointText c' ++ " " ++ pointText p
  | .close => "Z"

/-- Path data. -/
def pathText (path : Path P) : String := " ".intercalate (path.map elementText)

/-- One byte of a colour. -/
def channel (component : S) : Nat :=
  (Scalar.truncateInto 0 255 (Scalar.round (Scalar.clamp component 0 1 * 255))).toNat

/-- A colour without its opacity. -/
def colorText (color : Rgba S) : String :=
  s!"rgb({channel color.red},{channel color.green},{channel color.blue})"

/-- A coefficient of a map. One that is not finite is written as zero, and so is a negative
zero. -/
def coefficient (x : P) : P := if Scalar.isFinite x && !(x == 0) then x else 0

/-- A map. -/
def mapText (map : Affine P) : String :=
  let coefficients := [map.a, map.b, map.c, map.d, map.e, map.f]
  "matrix(" ++ " ".intercalate (coefficients.map fun x => Written.text (coefficient x)) ++ ")"

/-- The word for a fill rule. -/
def ruleText : FillRule → String
  | .nonZero => "nonzero"
  | .evenOdd => "evenodd"

/-- The word for a cap. -/
def capText : LineCap → String
  | .butt => "butt"
  | .round => "round"
  | .square => "square"

/-- The word for a join. -/
def joinText : LineJoin → String
  | .miter => "miter"
  | .round => "round"
  | .bevel => "bevel"

/-- The name of a gradient. -/
def gradientId (index : Nat) : String := s!"gradient-{index}"

/-- The attributes of a dash pattern. -/
def dashAttributes (dashes : DashPattern S) : List Attribute :=
  [⟨"stroke-dasharray", " ".intercalate (dashes.lengths.map Written.text)⟩,
    ⟨"stroke-dashoffset", Written.text dashes.offset⟩]

/-- The attributes of a paint on an outline with some opacity. A cover takes the place of the
colour of a fill. -/
def paintAttributes (opacity : S) (cover : Option (Rgba S)) : Paint S → List Attribute
  | .fill color paintOpacity rule =>
    let color := cover.getD color
    [⟨"fill", colorText color⟩,
      ⟨"fill-opacity", Written.text (color.alpha * paintOpacity * opacity)⟩,
      ⟨"fill-rule", ruleText rule⟩]
  | .gradient index paintOpacity rule =>
    [⟨"fill", "url(#" ++ gradientId index ++ ")"⟩,
      ⟨"fill-opacity", Written.text (paintOpacity * opacity)⟩, ⟨"fill-rule", ruleText rule⟩]
  | .stroke color paintOpacity width cap join miterLimit dashes =>
    [⟨"fill", "none"⟩, ⟨"stroke", colorText color⟩,
      ⟨"stroke-opacity", Written.text (color.alpha * paintOpacity * opacity)⟩,
      ⟨"stroke-width", Written.text width⟩, ⟨"stroke-linecap", capText cap⟩,
      ⟨"stroke-linejoin", joinText join⟩, ⟨"stroke-miterlimit", Written.text miterLimit⟩] ++
      ((dashes.map dashAttributes).getD [])

/-- The attribute of a map that does anything. -/
def placeAttributes (placed : Affine P) : List Attribute :=
  if placed == Affine.identity then [] else [⟨"transform", mapText placed⟩]

/-- The tag of an element. -/
def elementTag : Element S P → Tag
  | .outline path placed opacity paint cover =>
    .whole "path"
      ([⟨"d", pathText path⟩] ++ placeAttributes placed ++ paintAttributes opacity cover paint)
  | .picture picture placed opacity =>
    .whole "image"
      [⟨"xlink:href", picture.asset⟩, ⟨"width", Written.text picture.width⟩,
        ⟨"height", Written.text picture.height⟩, ⟨"transform", mapText placed⟩,
        ⟨"opacity", Written.text opacity⟩]

/-- The tag of a stop of a gradient. -/
def stopTag (stop : GradientStop S) : Tag :=
  .whole "stop"
    [⟨"offset", Written.text stop.offset⟩, ⟨"stop-color", colorText stop.color⟩,
      ⟨"stop-opacity", Written.text stop.color.alpha⟩]

/-- The name of the tag of a gradient. -/
def gradientName : GradientKind → String
  | .linear => "linearGradient"
  | .radial => "radialGradient"

/-- The attributes that say where a gradient lies. -/
def gradientGeometry (gradient : GradientFill S) : List Attribute :=
  let start := gradient.start.value
  match gradient.kind with
  | .linear =>
    let finish := gradient.finish.value
    [⟨"x1", Written.text start.x⟩, ⟨"y1", Written.text start.y⟩, ⟨"x2", Written.text finish.x⟩,
      ⟨"y2", Written.text finish.y⟩]
  | .radial =>
    let focus := gradient.focus
    [⟨"cx", Written.text start.x⟩, ⟨"cy", Written.text start.y⟩,
      ⟨"r", Written.text gradient.radius⟩, ⟨"fx", Written.text focus.x⟩,
      ⟨"fy", Written.text focus.y⟩]

/-- The tags of the gradient with a number. -/
def gradientTags (index : Nat) (gradient : GradientFill S) : List Tag :=
  let name := gradientName gradient.kind
  [.start name
      ([⟨"id", gradientId index⟩, ⟨"gradientUnits", "userSpaceOnUse"⟩] ++
        gradientGeometry gradient)] ++
    gradient.stops.map stopTag ++ [.finish name]

/-- The tags of gradients, numbered from `index` on. -/
def gradientsFrom : Nat → List (GradientFill S) → List Tag
  | _, [] => []
  | index, gradient :: rest => gradientTags index gradient ++ gradientsFrom (index + 1) rest

/-- The tags of what a canvas has painted. -/
def bodyTags (canvas : Canvas S P) : List Tag := canvas.elements.map elementTag

/-- The tags of the gradients of a canvas, if there are any. -/
def definitionTags (canvas : Canvas S P) : List Tag :=
  if canvas.gradients.isEmpty then []
  else [.start "defs" []] ++ gradientsFrom 0 canvas.gradients ++ [.finish "defs"]

/-- The tags of a document of some size. -/
def documentTags (width height : Nat) (canvas : Canvas S P) : List Tag :=
  [.start "svg"
      [⟨"xmlns", "http://www.w3.org/2000/svg"⟩, ⟨"xmlns:xlink", "http://www.w3.org/1999/xlink"⟩,
        ⟨"width", toString width⟩, ⟨"height", toString height⟩,
        ⟨"viewBox", s!"0 0 {width} {height}"⟩]] ++
    definitionTags canvas ++ bodyTags canvas ++ [.finish "svg"]

/-- The text of what a canvas has painted. -/
def body (canvas : Canvas S P) : String := Tag.lines (bodyTags canvas)

/-- The text of a document of some size. -/
def document (width height : Nat) (canvas : Canvas S P) : String :=
  Tag.lines (documentTags width height canvas)

end VectorMotion.Svg
