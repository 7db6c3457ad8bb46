import VectorMotion.Document.Animation
import VectorMotion.Scene.Transform
import VectorMotion.Trim.Window

/-!
# Layers over time

What a layer is besides its contents: when it is shown, where, and how it is clipped. The contents
of a layer live in its own time, which begins at its start time; only whether it is shown is
decided by the time of the document.
-/

namespace VectorMotion.Scene

variable {S : Type} [Scalar S]

/-- How a layer is clipped by the layer that is drawn in front of it in the order of drawing. -/
inductive ClipMode where
  | none
  | alpha
  | invertedAlpha
  | luma
  | invertedLuma
  deriving Repr, DecidableEq, Inhabited

/-- The clip mode of a document's code. -/
def ClipMode.ofCode : Nat → ClipMode
  | 1 => alpha
  | 2 => invertedAlpha
  | 3 => luma
  | 4 => invertedLuma
  | _ => none

/-- An image that a layer shows. -/
structure Picture (S : Type) where
  asset : String
  width : S
  height : S
  deriving Repr, BEq, Inhabited

/-- What a layer shows. -/
inductive LayerKind (S : Type) where
  | shapes
  | picture (picture : Picture S)
  deriving Repr, BEq, Inhabited

namespace LayerKind

/-- The code of a layer that shows an image. -/
def pictureCode : Nat := 2

/-- The code of a layer that shows shapes. -/
def shapesCode : Nat := 4

/-- What a layer of a document shows. An asset that is missing has no size. Layers of other kinds
are not drawn. -/
def ofDocument (assets : List (Document.Asset S)) (authored : Document.Layer S) :
    Option (LayerKind S) :=
  if authored.kind == shapesCode then some shapes
  else if authored.kind == pictureCode then
    let id := authored.asset.getD ""
    let asset := assets.find? (·.id == id)
    some (picture
      { asset := id
        width := (asset.bind (·.width)).getD 0
        height := (asset.bind (·.height)).getD 0 })
  else none

end LayerKind

/-- A layer without its contents. -/
structure Layer (S : Type) where
  kind : LayerKind S
  /-- The number by which other layers refer to it. -/
  index : Option Nat
  /-- The number of the layer whose transform it follows. -/
  parentIndex : Option Nat
  inPoint : S
  outPoint : S
  startTime : S
  transform : Transform S
  clipMode : ClipMode
  matteSource : Bool
  /-- Whether it is shown at the current time. -/
  active : Bool
  /-- The trim in force for its contents. -/
  trim : Option (Trim.Window S)
  /-- The node that its parent number stands for, once it has been looked up. What has been found
  then stays, and so does that nothing has been found. -/
  link : Option (Option Nat)
  deriving Repr, Inhabited

namespace Layer

/-- The layer that a document describes. It is not shown before it is brought to a time. -/
def ofDocument (kind : LayerKind S) (authored : Document.Layer S) : Layer S :=
  { kind
    index := authored.index
    parentIndex := authored.parent
    inPoint := authored.inPoint
    outPoint := authored.outPoint
    startTime := authored.startTime
    transform := Transform.ofDocument authored.transform
    clipMode := ClipMode.ofCode authored.clipMode
    matteSource := authored.matteSource
    active := false
    trim := none
    link := none }

/-- The time of the contents at a time of what the layer stands in. -/
def localTime (layer : Layer S) (time : S) : S := time - layer.startTime

/-- Whether the layer is shown at a time. Both ends belong to it. -/
def shownAt (layer : Layer S) (time : S) : Bool := layer.inPoint ≤ time && time ≤ layer.outPoint

/-- The layer brought to a time, under the trim that its contents are under then. -/
def update (layer : Layer S) (time : S) (trim : Option (Trim.Window S)) : Layer S :=
  { layer with
    active := layer.shownAt time
    transform := layer.transform.update (layer.localTime time)
    trim }

end Layer

end VectorMotion.Scene
