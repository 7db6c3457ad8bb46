import VectorMotion.Scene.Expression

/-!
# Building nodes

How the nodes of a scene are made from a document. Layers and shapes are read one at a time; what
cannot be read, or is of a kind that is not drawn, gives no node and takes no number.

The layers of a document are made in two rounds. The first makes every layer with its effects, so
that an expression on any layer can refer to an effect on any other. The second fills in transforms
and contents, in the order of the document, each after its expressions have been replaced.

Documents list first what is drawn last, so children are put in reverse, and transforms in front
of everything that they act on.
-/

namespace VectorMotion.Scene

open Json

variable {S P : Type} [Scalar S] [Scalar P] [Widen S P] [Measure P]

/-- What building needs besides the fragment that is built. -/
structure Workshop (S : Type) where
  settings : Trim.Settings := {}
  assets : List (Document.Asset S) := []

/-- A fragment as a record, if it can be read as one. -/
def read? {V : Type} (decode : Decoder V) (fragment : Value) : Option V :=
  (decode.ofValue fragment).toOption

/-- The head of a node with a number and a label. -/
def Head.ofLabel (id : Nat) (label : Document.Label) : Head :=
  { id, name := label.name.getD "", matchName := label.matchName, hidden := label.hidden }

/-- Children in the order of drawing: reversed, with the transforms in front. -/
def arranged (children : List (Node S P)) : List (Node S P) :=
  let reversed := children.reverse
  reversed.filter (·.kind.isTransform) ++ reversed.filter fun child => !child.kind.isTransform

namespace Build

/-- The kind of a shape with a tag. -/
def kindOf (settings : Trim.Settings) (name tag : String) (fragment : Value) :
    Option (Kind S P) :=
  match tag with
  | "gr" => some (.group {})
  | "rc" => (read? Document.Rectangle.decode fragment).map fun authored =>
    .shape (Shape.ofContour (Contour.ofRectangle authored) authored.direction)
  | "el" => (read? Document.Ellipse.decode fragment).map fun authored =>
    .shape (Shape.ofContour (Contour.ofEllipse authored) authored.direction)
  | "rd" => (read? Document.Circle.decode fragment).map fun authored =>
    .shape (Shape.ofContour (Contour.ofCircle authored) authored.direction)
  | "sh" => (read? Document.FreeForm.decode fragment).map fun authored =>
    .shape (Shape.ofContour (Contour.ofFreeForm authored) authored.direction)
  | "fl" => (read? Document.Fill.decode fragment).map fun authored =>
    .fill (Fill.ofDocument authored)
  | "gf" => (read? Document.GradientFill.decode fragment).map fun authored =>
    .gradient (GradientFill.ofDocument authored)
  | "st" => (read? Document.Stroke.decode fragment).map fun authored =>
    .stroke (Stroke.ofDocument authored)
  | "tr" => (read? Document.Transform.decode fragment).map fun authored =>
    .transform (GroupTransform.ofDocument authored)
  | "tm" => (read? Document.Trim.decode fragment).map fun authored =>
    .trim (TrimPath.ofDocument settings name authored)
  | "rp" => (read? Document.Repeater.decode fragment).map fun authored =>
    .repeater (Repeater.ofDocument authored)
  | _ => none

/-- The head and the kind of a shape. A shape needs a tag, a readable label and a readable
record. -/
def shapeHead (settings : Trim.Settings) (fragment : Value) (id : Nat) :
    Option (Head × Kind S P) := do
  let tag ← (← fragment.member? "ty").text?
  let label ← read? Document.Label.decode fragment
  let head := Head.ofLabel id label
  let kind ← kindOf settings head.name tag fragment
  return (head, kind)

/-- The member under which the items of a group stand. -/
def itemsMember : String := "it"

mutual
/-- The node of a shape, and the number after the last that it has taken. -/
def shape (settings : Trim.Settings) : Value → Nat → Option (Node S P × Nat)
  | .object members, next =>
    match shapeHead settings (.object members) next with
    | none => none
    | some (head, .group group) =>
      let (children, after) := groupItems settings members (next + 1)
      some (.mk head (.group group) [] (arranged children), after)
    | some (head, kind) => some (.mk head kind [] [], next + 1)
  | _, _ => none

/-- The nodes of the items of a group with these members, in the order of the document. -/
def groupItems (settings : Trim.Settings) : List (String × Value) → Nat → List (Node S P) × Nat
  | [], next => ([], next)
  | (name, .list items) :: rest, next =>
    if name == itemsMember then shapes settings items next else groupItems settings rest next
  | _ :: rest, next => groupItems settings rest next

/-- The nodes of some shapes, in the order of the document. -/
def shapes (settings : Trim.Settings) : List Value → Nat → List (Node S P) × Nat
  | [], next => ([], next)
  | item :: rest, next =>
    match shape settings item next with
    | some (node, after) =>
      let (nodes, last) := shapes settings rest after
      (node :: nodes, last)
    | none => shapes settings rest next
end

/-- The kinds of effect. -/
def effectKind (effect : Document.Effect) : Option (Kind S P) :=
  match effect.kind with
  | 0 => some (.slider (Slider.ofDocument effect))
  | 5 => some .effectGroup
  | 21 => some (.flood (Flood.ofDocument effect))
  | _ => none

/-- The head of an effect with a number. -/
def effectHead (effect : Document.Effect) (id : Nat) : Head :=
  { id, name := effect.name.getD "", matchName := effect.matchName }

mutual
/-- The node of an effect, and the number after the last that it has taken. The parts of a group
are its children; those of other effects are no nodes. -/
def effect : Document.Effect → Nat → Option (Node S P × Nat)
  | .mk code name matchName parts value, next =>
    let authored := Document.Effect.mk code name matchName parts value
    match effectKind authored with
    | none => none
    | some .effectGroup =>
      let (children, after) := effects parts (next + 1)
      some (.mk (effectHead authored next) .effectGroup [] children, after)
    | some kind => some (.mk (effectHead authored next) kind [] [], next + 1)

/-- The nodes of some effects. -/
def effects : List Document.Effect → Nat → List (Node S P) × Nat
  | [], next => ([], next)
  | authored :: rest, next =>
    match effect authored next with
    | some (node, after) =>
      let (nodes, last) := effects rest after
      (node :: nodes, last)
    | none => effects rest next
end

/-- The node of a layer with its effects, still without contents. -/
def layerHead (workshop : Workshop S) (fragment : Value) (next : Nat) :
    Option (Node S P × Nat) := do
  let label ← read? Document.Label.decode fragment
  let authored ← read? Document.Layer.decode fragment
  let kind ← LayerKind.ofDocument workshop.assets authored
  let parts := authored.effects.filterMap (read? Document.Effect.decode)
  let (nodes, after) := effects parts (next + 1)
  return (.mk (Head.ofLabel next label) (.layer (Layer.ofDocument kind authored)) nodes [], after)

/-- A kind with another transform, if it is a layer. -/
def setTransform (transform : Transform S) : Kind S P → Kind S P
  | .layer layer => .layer { layer with transform }
  | other => other

/-- The transform and the contents of a layer filled in from its fragment. A fragment that cannot
be read any more, now that its expressions have been replaced, leaves the layer empty. -/
def fillLayer (workshop : Workshop S) (layer : Node S P) (fragment : Value) (next : Nat) :
    Node S P × Nat :=
  match read? Document.Layer.decode fragment with
  | none => (layer, next)
  | some authored =>
    let (children, after) := shapes workshop.settings authored.shapes next
    let transform := Transform.ofDocument authored.transform
    ((layer.mapKind (setTransform transform)).withChildren (arranged children), after)

/-- The first round: layers with their effects, each with its fragment. -/
def layerHeads (workshop : Workshop S) : List Value → Nat → List (Node S P × Value) × Nat
  | [], next => ([], next)
  | fragment :: rest, next =>
    match layerHead workshop fragment next with
    | some (layer, after) =>
      let (layers, last) := layerHeads workshop rest after
      ((layer, fragment) :: layers, last)
    | none => layerHeads workshop rest next

/-- The root with these layers as its children. -/
def rootWith (layers : List (Node S P)) : Node S P := .mk { id := 0, name := "" } .root [] layers

/-- The second round: contents, layer by layer. Expressions are looked up among the layers as they
are by then, with the contents of those before. -/
def fillLayers (workshop : Workshop S) :
    List (Node S P) → List (Node S P × Value) → Nat → List (Node S P) × Nat
  | filled, [], next => (filled, next)
  | filled, (layer, fragment) :: rest, next =>
    let root := rootWith (filled ++ layer :: rest.map (·.1))
    let (layer, after) := fillLayer workshop layer (Expression.resolve root fragment) next
    fillLayers workshop (filled ++ [layer]) rest after

/-- Whether a node is a layer that clips the one after it. -/
def isMatteSource (node : Node S P) : Bool :=
  match node.layer? with
  | some layer => layer.matteSource
  | none => false

/-- Matte sources moved in front of the layers that they clip. A layer that has changed places
with its source takes no further part. -/
def mattesFirst : List (Node S P) → List (Node S P)
  | layer :: next :: rest =>
    if isMatteSource next then next :: layer :: mattesFirst rest
    else layer :: mattesFirst (next :: rest)
  | layers => layers

/-- The root of a document's scene, and the number after the last node. -/
def document (workshop : Workshop S) (layers : List Value) : Node S P × Nat :=
  let (heads, next) := layerHeads workshop layers 1
  let (filled, last) := fillLayers workshop [] heads next
  (rootWith (mattesFirst filled.reverse), last)

end Build

end VectorMotion.Scene
