import VectorMotion.Document.Animation
import VectorMotion.Scene.Paint

/-!
# Effects over time

The controls that a layer carries: a slider holds a number that expressions refer to, and a flood
gives everything on the layer one colour.
-/

namespace VectorMotion.Scene

open Json

variable {S V : Type} [Scalar S]

/-- The property that a control holds. One that is left out or cannot be read is the default. -/
def controlProperty (decode : Decoder V) (control : Option Document.Effect) :
    Document.Property S V :=
  match control.bind (·.value) with
  | none => {}
  | some value =>
    match (Document.Property.decode decode).ofValue value with
    | .ok property => property
    | .error _ => {}

/-- A slider. Its authored value is what an expression that refers to it is replaced by. -/
structure Slider (S : Type) where
  value : Track S S
  authored : Value
  deriving Repr, Inhabited

namespace Slider

/-- The slider that a document describes. -/
def ofDocument (control : Document.Effect) : Slider S :=
  { value := amount 0 (controlProperty Decoder.scalar (some control))
    authored := control.value.getD Value.null }

/-- The slider brought to a time. -/
def update (slider : Slider S) (time : S) : Slider S :=
  { slider with value := slider.value.update time }

end Slider

/-- A flood of one colour. -/
structure Flood (S : Type) where
  color : Track S (Rgba S)
  fraction : Track S S
  deriving Repr, Inhabited

namespace Flood

/-- The place of the colour among the controls of a flood. -/
def colorSlot : Nat := 2

/-- The place of the opacity among the controls of a flood. -/
def opacitySlot : Nat := 6

/-- The flood that a document describes. -/
def ofDocument (effect : Document.Effect) : Flood S :=
  { color := Scene.color (controlProperty Document.decodeColor effect.parts[colorSlot]?)
    fraction := amount 1 (controlProperty Decoder.scalar effect.parts[opacitySlot]?) }

/-- The flood brought to a time. -/
def update (flood : Flood S) (time : S) : Flood S :=
  { color := flood.color.update time, fraction := flood.fraction.update time }

/-- The opacity between zero and one. -/
def opacity (flood : Flood S) : S := Scalar.clamp flood.fraction.value 0 1

/-- The colour with which everything on the layer is filled. -/
def cover (flood : Flood S) : Rgba S :=
  let color := flood.color.value
  { color with alpha := color.alpha * flood.opacity }

end Flood

end VectorMotion.Scene
