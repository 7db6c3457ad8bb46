import VectorMotion.Scene.Build
import VectorMotion.Scene.Parenting

/-!
# Trees

The nodes of a scene under one root. A tree is built from a document as a whole, or grows by one
fragment at a time. A node that is given to a parent which does not exist still takes a number and
can be asked for, but stands beside the tree: it is neither brought to a time nor drawn.
-/

namespace VectorMotion.Scene

open Json

variable {S P : Type} [Scalar S] [Scalar P] [Widen S P] [Measure P]

/-- A tree of nodes. -/
structure Tree (S P : Type) where
  root : Node S P
  /-- Nodes beside the tree, each with the number it was to be given to. -/
  loose : List (Nat × Node S P) := []
  /-- The number of the next node. -/
  next : Nat
  deriving Repr, Inhabited

/-- A node and the number of its parent. -/
structure Placed (S P : Type) where
  parent : Option Nat
  node : Node S P

mutual
/-- A node and everything below it, each with the number of its parent. -/
def Node.placed (parent : Option Nat) : Node S P → List (Placed S P)
  | .mk head kind effects children =>
    ⟨parent, .mk head kind effects children⟩ ::
      (Node.placedAll head.id effects ++ Node.placedAll head.id children)

/-- Nodes with everything below them, each with the number of its parent. -/
def Node.placedAll (parent : Nat) : List (Node S P) → List (Placed S P)
  | [] => []
  | node :: rest => Node.placed (some parent) node ++ Node.placedAll parent rest
end

namespace Tree

/-- A tree with nothing but its root. -/
def empty : Tree S P := { root := Build.rootWith [], next := 1 }

/-- The tree of a document, under the settings of the user. -/
def ofDocument (settings : Trim.Settings) (document : Document S) : Tree S P :=
  let (root, next) := Build.document ⟨settings, document.assets⟩ document.layers
  { root, next }

/-- How many nodes have been made, the root included. -/
def size (tree : Tree S P) : Nat := tree.next

/-- Whether there is nothing but the root. -/
def isEmpty (tree : Tree S P) : Bool := tree.size ≤ 1

/-- All nodes in the order of their numbers, each with the number of its parent. -/
def placed (tree : Tree S P) : List (Placed S P) :=
  let loose := tree.loose.flatMap fun (parent, node) => Node.placed (some parent) node
  (Node.placed none tree.root ++ loose).mergeSort fun a b => a.node.id ≤ b.node.id

/-- The node with a number, with the number of its parent. -/
def at? (tree : Tree S P) (id : Nat) : Option (Placed S P) :=
  tree.placed.find? (·.node.id == id)

/-- The first node with a name in the tree. -/
def find? (tree : Tree S P) (name : String) : Option (Node S P) := tree.root.find? name

/-- The layers directly under the root. -/
def layers (tree : Tree S P) : List (LayerEntry S) := Parenting.entries tree.root.children

/-- The layer under the root with a number of the document. -/
def findLayer? (tree : Tree S P) (index : Nat) : Option Head :=
  (Parenting.withIndex? tree.layers index).map (·.1)

/-- The layers that a layer follows, the nearest first. Other nodes follow none. -/
def parents (tree : Tree S P) (node : Node S P) : List (LayerEntry S) :=
  match node.layer? with
  | some layer => Parenting.chain tree.layers node.head layer
  | none => []

/-- The node with a number changed. -/
def modify (tree : Tree S P) (id : Nat) (change : Node S P → Node S P) : Tree S P :=
  { tree with
    root := tree.root.modify id change
    loose := tree.loose.map fun (parent, node) => (parent, node.modify id change) }

/-- The tree with one more node, the last child of its parent, and the number after the last that
the node has taken. -/
def insert (tree : Tree S P) (parent : Nat) (node : Node S P) (next : Nat) : Tree S P :=
  if (tree.at? parent).isSome then { tree.modify parent (Node.append node) with next }
  else { tree with loose := tree.loose ++ [(parent, node)], next }

/-- The tree with a group that has no contents yet, and the number of the group. -/
def addGroup (tree : Tree S P) (parent : Nat) (name : String) : Tree S P × Nat :=
  let id := tree.next
  (tree.insert parent (.mk { id, name } (.group {}) [] []) (id + 1), id)

/-- The tree with a shape, and the number of the shape. -/
def addShape (tree : Tree S P) (settings : Trim.Settings) (parent : Nat) (fragment : Value) :
    Option (Tree S P × Nat) :=
  (Build.shape settings fragment tree.next).map fun (node, next) =>
    (tree.insert parent node next, node.id)

/-- The tree with a layer, and the number of the layer. Expressions on the layer can refer to its
own effects. -/
def addLayer (tree : Tree S P) (workshop : Workshop S) (parent : Nat) (fragment : Value) :
    Option (Tree S P × Nat) :=
  (Build.layerHead workshop fragment tree.next).map fun (node, next) =>
    let tree := tree.insert parent node next
    let (filled, last) :=
      Build.fillLayer workshop node (Expression.resolve tree.root fragment) next
    ({ tree.modify node.id (fun _ => filled) with next := last }, node.id)

/-- The tree brought to a time. -/
def update (tree : Tree S P) (time : S) : Tree S P :=
  { tree with root := tree.root.update time none }

/-- A node hidden or shown. -/
def setHidden (tree : Tree S P) (id : Nat) (hidden : Bool) : Tree S P :=
  tree.modify id (Node.setHidden hidden)

/-- The tree in which the parents of some layers have been looked up. -/
def settle (tree : Tree S P) (ids : List Nat) : Tree S P :=
  let layers := tree.layers
  ids.foldl (fun tree id => tree.modify id (Node.mapKind fun
    | .layer layer => .layer (Parenting.settled layers layer)
    | other => other)) tree

/-- The tree in which the parents of a layer, and of all the layers it follows, have been looked
up. -/
def settleChain (tree : Tree S P) (node : Node S P) : Tree S P :=
  tree.settle (node.id :: (tree.parents node).map fun entry => entry.1.id)

/-- Whether the tree holds a rectangle of which no path can be made. -/
def isUnbounded (tree : Tree S P) : Bool := tree.placed.any (·.node.isUnbounded)

end Tree

end VectorMotion.Scene
