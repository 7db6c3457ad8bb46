import VectorMotion.Document.Transform

/-!
# Authored animations

The document as a whole, its layers, their effects and the images they refer to. Layers and shapes
are kept as values and read one at a time when the scene is built, so that one that does not fit
is lost alone, and so that expressions can be replaced before it is read.
-/

namespace VectorMotion.Document

open Json

variable {S : Type} [Scalar S]

/-- What every layer and shape carries besides its kind. -/
structure Label where
  name : Option String := none
  matchName : Option String := none
  hidden : Bool := false
  autoOrient : Bool := false
  deriving Repr, Inhabited

namespace Label

/-- The fields of a label. -/
def fields : List (Record.Field Label) :=
  [ .of "nm" (Decoder.optional Decoder.text) fun name record => { record with name },
    .of "mn" (Decoder.optional Decoder.text) fun matchName record => { record with matchName },
    .of "hd" Decoder.switch fun hidden record => { record with hidden },
    .of "ao" Decoder.switch fun autoOrient record => { record with autoOrient } ]

/-- Reads a label. -/
def decode : Decoder Label := Record.decode "NodeInfo" {} fields

end Label

/-- A layer. `threeD`, `blendMode` and `stretch` are authored, but nothing is drawn with them. -/
structure Layer (S : Type) where
  kind : Nat := 0
  index : Option Nat := none
  parent : Option Nat := none
  inPoint : S
  outPoint : S
  startTime : S
  threeD : Nat := 0
  blendMode : Nat := 0
  stretch : S
  matteSource : Bool := false
  clipMode : Nat := 0
  transform : Transform S := {}
  asset : Option String := none
  effects : List Value := []
  shapes : List Value := []
  deriving Repr, Inhabited

namespace Layer

/-- A layer in which everything is left out. -/
def blank : Layer S := { inPoint := 0, outPoint := 0, startTime := 0, stretch := 1 }

/-- The fields of a layer. -/
def fields : List (Record.Field (Layer S)) :=
  [ .of "ty" Decoder.code fun kind record => { record with kind },
    .of "ind" (Decoder.optional Decoder.index) fun index record => { record with index },
    .of "parent" (Decoder.optional Decoder.index) fun parent record => { record with parent },
    .of "ip" Decoder.scalar fun inPoint record => { record with inPoint },
    .of "op" Decoder.scalar fun outPoint record => { record with outPoint },
    .of "st" Decoder.scalar fun startTime record => { record with startTime },
    .of "ddd" Decoder.code fun threeD record => { record with threeD },
    .of "bm" Decoder.code fun blendMode record => { record with blendMode },
    .of "sr" Decoder.scalar fun stretch record => { record with stretch },
    .of "td" Decoder.switch fun matteSource record => { record with matteSource },
    .of "tt" Decoder.code fun clipMode record => { record with clipMode },
    .of "ks" Transform.decode fun transform record => { record with transform },
    .of "refId" (Decoder.optional Decoder.text) fun asset record => { record with asset },
    .of "ef" (Decoder.list Source.toValue) fun effects record => { record with effects },
    .of "shapes" (Decoder.list Source.toValue) fun shapes record => { record with shapes } ]

/-- Reads a layer. -/
def decode : Decoder (Layer S) := Record.decode "Layer" blank fields

end Layer

/-- One entry of a layer's effects. Groups hold further effects; a control holds the value of a
property. -/
inductive Effect where
  | mk (kind : Nat) (name matchName : Option String) (parts : List Effect) (value : Option Value)
  deriving Repr, Inhabited

namespace Effect

/-- The kind of effect. -/
def kind : Effect → Nat
  | mk kind _ _ _ _ => kind

/-- The name, if it has one. -/
def name : Effect → Option String
  | mk _ name _ _ _ => name

/-- The name to match it by, if it has one. -/
def matchName : Effect → Option String
  | mk _ _ matchName _ _ => matchName

/-- The effects within a group. -/
def parts : Effect → List Effect
  | mk _ _ _ parts _ => parts

/-- The authored value of a control. -/
def value : Effect → Option Value
  | mk _ _ _ _ value => value

/-- An effect with nothing in it. -/
def blank : Effect := mk 0 none none [] none

/-- The fields of an effect, given the decoder of the effects within it. -/
def fields (decodePart : Decoder Effect) : List (Record.Field Effect) :=
  [ .of "ty" Decoder.code fun kind record =>
      mk kind record.name record.matchName record.parts record.value,
    .of "nm" (Decoder.optional Decoder.text) fun name record =>
      mk record.kind name record.matchName record.parts record.value,
    .of "mn" (Decoder.optional Decoder.text) fun matchName record =>
      mk record.kind record.name matchName record.parts record.value,
    .of "ef" (Decoder.list decodePart) fun parts record =>
      mk record.kind record.name record.matchName parts record.value,
    .of "v" (Decoder.optional Source.toValue) fun value record =>
      mk record.kind record.name record.matchName record.parts value ]

/-- Reads an effect in which others are nested less deep than the bound. -/
def decodeBelow : Nat → Decoder Effect
  | 0, source => .error (source.misfit "struct Effect")
  | bound + 1, source => Record.decode "Effect" blank (fields (decodeBelow bound)) source

/-- Reads an effect. An effect cannot be nested deeper than its source. -/
def decode : Decoder Effect := fun source => decodeBelow (source.height + 1) source

end Effect

/-- An image that layers refer to. -/
structure Asset (S : Type) where
  id : String
  name : Option String := none
  width : Option S := none
  height : Option S := none
  directory : Option String := none
  file : Option String := none
  embedded : Option Nat := none
  deriving Repr, Inhabited

namespace Asset

/-- The fields of an asset. -/
def fields : List (Record.Field (Asset S)) :=
  [ .must "id" Decoder.text fun id record => { record with id },
    .of "nm" (Decoder.optional Decoder.text) fun name record => { record with name },
    .of "w" (Decoder.optional Decoder.scalar) fun width record => { record with width },
    .of "h" (Decoder.optional Decoder.scalar) fun height record => { record with height },
    .of "u" (Decoder.optional Decoder.text) fun directory record => { record with directory },
    .of "p" (Decoder.optional Decoder.text) fun file record => { record with file },
    .of "e" (Decoder.optional Decoder.code) fun embedded record => { record with embedded } ]

/-- Reads an asset. -/
def decode : Decoder (Asset S) := Record.decode "Asset" { id := "" } fields

end Asset

end VectorMotion.Document

namespace VectorMotion

open Json Document

/-- A document. -/
structure Document (S : Type) where
  version : Option String := none
  name : Option String := none
  inPoint : S
  outPoint : S
  frameRate : S
  width : Nat := 0
  height : Nat := 0
  layers : List Value := []
  assets : List (Asset S) := []
  deriving Repr, Inhabited

namespace Document

variable {S : Type} [Scalar S]

/-- The fields of a document. -/
def fields : List (Record.Field (Document S)) :=
  [ .of "v" (Decoder.optional Decoder.text) fun version record => { record with version },
    .of "nm" (Decoder.optional Decoder.text) fun name record => { record with name },
    .must "ip" Decoder.scalar fun inPoint record => { record with inPoint },
    .must "op" Decoder.scalar fun outPoint record => { record with outPoint },
    .must "fr" Decoder.scalar fun frameRate record => { record with frameRate },
    .must "w" Decoder.index fun width record => { record with width },
    .must "h" Decoder.index fun height record => { record with height },
    .of "layers" (Decoder.list Source.toValue) fun layers record => { record with layers },
    .of "assets" (Decoder.list Asset.decode) fun assets record => { record with assets } ]

/-- Reads a document. -/
def decode : Decoder (Document S) :=
  Record.decode "LottieJson" { inPoint := 0, outPoint := 0, frameRate := 0 } fields

end Document

end VectorMotion
