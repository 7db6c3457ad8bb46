import VectorMotion.Scene.Effect
import VectorMotion.Scene.Gradient
import VectorMotion.Scene.Layer
import VectorMotion.Scene.Paint
import VectorMotion.Scene.Repeater
import VectorMotion.Scene.Shape
import VectorMotion.Scene.TrimPath

/-!
# Nodes

A scene is a tree of nodes: layers with their effects, groups, shapes and paints. The children of a
node stand in the order in which they are drawn. Every node has a number, and numbers are given in
the order in which nodes are made.

Bringing a node to a time is one walk down the tree. On the way a trim comes into force: a layer
starts without one, the trims among the children of a container meet whatever is in force around
it, and what results holds for all its other children. Hidden nodes are left as they are, with all
that is below them.
-/

namespace VectorMotion.Scene

variable {S P : Type} [Scalar S] [Scalar P] [Widen S P] [Measure P]

/-- A group without its contents. -/
structure Group (S : Type) where
  /-- The trim in force for the contents. -/
  trim : Option (Trim.Window S) := none
  /-- Whether a trim is among the contents. -/
  ownsTrim : Bool := false
  deriving Repr, Inhabited

/-- What a node is, besides its children. -/
inductive Kind (S P : Type) where
  | root
  | layer (layer : Layer S)
  | group (group : Group S)
  | transform (transform : GroupTransform S)
  | shape (shape : Shape S P)
  | fill (fill : Fill S)
  | gradient (gradient : GradientFill S)
  | stroke (stroke : Stroke S)
  | trim (trim : TrimPath S)
  | repeater (repeater : Repeater S)
  | effectGroup
  | slider (slider : Slider S)
  | flood (flood : Flood S)
  deriving Repr, Inhabited

namespace Kind

/-- Whether the children of such a node are brought to a time and drawn. -/
def isContainer : Kind S P → Bool
  | root | layer _ | group _ | effectGroup => true
  | _ => false

/-- Whether the node is the transform of its container, which acts on all its other children. -/
def isTransform : Kind S P → Bool
  | transform _ => true
  | _ => false

/-- Whether a trim around the node has an effect on it. -/
def acceptsTrim : Kind S P → Bool
  | shape _ | group _ => true
  | _ => false

/-- The layer, of a node that is one. -/
def layer? : Kind S P → Option (Layer S)
  | layer content => some content
  | _ => none

/-- The time of the children at a time of the node. -/
def childTime (kind : Kind S P) (time : S) : S :=
  match kind with
  | layer content => content.localTime time
  | _ => time

/-- The trim that is in force where the children of a container begin: a group takes over the one
around it. -/
def trimInside (kind : Kind S P) (around : Option (Trim.Window S)) : Option (Trim.Window S) :=
  match kind with
  | group _ => around
  | _ => none

/-- A container brought to a time, given the trim in force for its children and whether one of
them is a trim. -/
def updateContainer (kind : Kind S P) (time : S) (trim : Option (Trim.Window S))
    (ownsTrim : Bool) : Kind S P :=
  match kind with
  | layer content => .layer (content.update time trim)
  | group _ => .group { trim, ownsTrim }
  | other => other

/-- Any other node brought to a time, under the trim around it. -/
def updateLeaf (kind : Kind S P) (time : S) (around : Option (Trim.Window S)) : Kind S P :=
  match kind with
  | transform content => .transform (content.update time)
  | shape content => .shape (content.update time around)
  | fill content => .fill (content.update time)
  | gradient content => .gradient (content.update time)
  | stroke content => .stroke (content.update time)
  | trim content => .trim (content.update time)
  | repeater content => .repeater (content.update time)
  | slider content => .slider (content.update time)
  | flood content => .flood (content.update time)
  | other => other

end Kind

/-- What every node carries. -/
structure Head where
  /-- The number of the node. -/
  id : Nat
  name : String
  matchName : Option String := none
  hidden : Bool := false
  deriving Repr, DecidableEq, Inhabited

/-- A node with its effects and its children. Only layers have effects. -/
inductive Node (S P : Type) where
  | mk (head : Head) (kind : Kind S P) (effects children : List (Node S P))
  deriving Repr, Inhabited

namespace Node

/-- What every node carries. -/
def head : Node S P → Head
  | mk head _ _ _ => head

/-- What the node is. -/
def kind : Node S P → Kind S P
  | mk _ kind _ _ => kind

/-- The effects of a layer. -/
def effects : Node S P → List (Node S P)
  | mk _ _ effects _ => effects

/-- The children in the order of drawing. -/
def children : Node S P → List (Node S P)
  | mk _ _ _ children => children

/-- The number of the node. -/
def id (node : Node S P) : Nat := node.head.id

/-- The name of the node. -/
def name (node : Node S P) : String := node.head.name

/-- The layer, of a node that is one. -/
def layer? (node : Node S P) : Option (Layer S) := node.kind.layer?

/-- The window of a visible trim at a time. -/
def windowAt? (time : S) : Node S P → Option (Trim.Window S)
  | mk head (.trim trim) _ _ => if head.hidden then none else some (trim.update time).window
  | _ => none

/-- The windows of the visible trims among some children at a time, in the order of drawing. -/
def windowsAt (time : S) (children : List (Node S P)) : List (Trim.Window S) :=
  children.filterMap (windowAt? time)

/-- The trim in force once windows have met the one around them, one after the other. -/
def meetAll (around : Option (Trim.Window S)) (windows : List (Trim.Window S)) :
    Option (Trim.Window S) :=
  windows.foldl (fun current window => some (Trim.Window.meet current window)) around

mutual
/-- The node brought to a time, under the trim in force around it. -/
def update (time : S) (around : Option (Trim.Window S)) : Node S P → Node S P
  | mk head kind effects children =>
    if head.hidden then mk head kind effects children
    else if kind.isContainer then
      let inner := kind.childTime time
      let windows := windowsAt inner children
      let trim := meetAll (kind.trimInside around) windows
      mk head (kind.updateContainer time trim !windows.isEmpty) (updateAll inner none effects)
        (updateAll inner trim children)
    else mk head (kind.updateLeaf time around) effects children

/-- Nodes brought to a time. -/
def updateAll (time : S) (around : Option (Trim.Window S)) : List (Node S P) → List (Node S P)
  | [] => []
  | node :: rest => update time around node :: updateAll time around rest
end

mutual
/-- The node and everything below it: first itself, then its effects, then its children. -/
def listing : Node S P → List (Node S P)
  | mk head kind effects children =>
    mk head kind effects children :: (listingAll effects ++ listingAll children)

/-- Nodes with everything below them. -/
def listingAll : List (Node S P) → List (Node S P)
  | [] => []
  | node :: rest => listing node ++ listingAll rest
end

mutual
/-- The first node with a name, among this one and everything below it. Effects are searched
before children. -/
def find? (name : String) : Node S P → Option (Node S P)
  | mk head kind effects children =>
    if head.name == name then some (mk head kind effects children)
    else
      match findAmong? name effects with
      | some found => some found
      | none => findAmong? name children

/-- The first node with a name among some nodes and everything below them. -/
def findAmong? (name : String) : List (Node S P) → Option (Node S P)
  | [] => none
  | node :: rest =>
    match find? name node with
    | some found => some found
    | none => findAmong? name rest
end

mutual
/-- The node with a number changed. -/
def modify (id : Nat) (change : Node S P → Node S P) : Node S P → Node S P
  | mk head kind effects children =>
    if head.id == id then change (mk head kind effects children)
    else mk head kind (modifyAll id change effects) (modifyAll id change children)

/-- The node with a number changed, among some nodes and everything below them. -/
def modifyAll (id : Nat) (change : Node S P → Node S P) : List (Node S P) → List (Node S P)
  | [] => []
  | node :: rest => modify id change node :: modifyAll id change rest
end

/-- The node with one more child, behind the others. -/
def append (child : Node S P) : Node S P → Node S P
  | mk head kind effects children => mk head kind effects (children ++ [child])

/-- The node hidden or shown. -/
def setHidden (hidden : Bool) : Node S P → Node S P
  | mk head kind effects children => mk { head with hidden } kind effects children

/-- The node with other children. -/
def withChildren (children : List (Node S P)) : Node S P → Node S P
  | mk head kind effects _ => mk head kind effects children

/-- The node with its kind changed. -/
def mapKind (change : Kind S P → Kind S P) : Node S P → Node S P
  | mk head kind effects children => mk head (change kind) effects children

/-- Whether the node is a rectangle of which no path can be made. -/
def isUnbounded (node : Node S P) : Bool :=
  match node.kind with
  | .shape shape => shape.contour.unbounded
  | _ => false

end Node

end VectorMotion.Scene
