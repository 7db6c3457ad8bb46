import VectorMotion.Scene.Node

/-!
# Parenting

A layer may follow the transform of another, which may follow a third. Layers refer to each other
by the numbers that the document gives them, which may be missing, shared by several layers, or run
in a circle. The chain of a layer ends where a layer refers to none, and before it would come back
to the layer it started from or to one that is already in it.
-/

namespace VectorMotion.Scene

variable {S P : Type}

/-- A layer with the head of its node. -/
abbrev LayerEntry (S : Type) := Head × Layer S

namespace Parenting

/-- The layers among some nodes. -/
def entries (nodes : List (Node S P)) : List (LayerEntry S) :=
  nodes.filterMap fun node => node.layer?.map fun layer => (node.head, layer)

/-- The first layer with a number. -/
def withIndex? (layers : List (LayerEntry S)) (index : Nat) : Option (LayerEntry S) :=
  layers.find? fun entry => entry.2.index == some index

/-- The layer that another one follows: the one that has been looked up before, or else the first
with its parent number. -/
def parent? (layers : List (LayerEntry S)) (layer : Layer S) : Option (LayerEntry S) :=
  match layer.link with
  | some known => known.bind fun id => layers.find? fun entry => entry.1.id == id
  | none => layer.parentIndex.bind (withIndex? layers)

/-- The layers that a layer follows, the nearest first, as far as they are among the `unvisited`
and do not lead back to the start. -/
def chainFrom (layers : List (LayerEntry S)) (start : Nat) (unvisited : List Nat)
    (layer : Layer S) : List (LayerEntry S) :=
  match parent? layers layer with
  | none => []
  | some (head, next) =>
    if _fresh : head.id != start ∧ head.id ∈ unvisited then
      (head, next) :: chainFrom layers start (unvisited.erase head.id) next
    else []
termination_by unvisited.length
decreasing_by
  have inside : head.id ∈ unvisited := _fresh.2
  have shorter := List.length_erase_of_mem inside
  have positive := List.length_pos_of_mem inside
  omega

/-- The layers that a layer follows, the nearest first. -/
def chain (layers : List (LayerEntry S)) (head : Head) (layer : Layer S) : List (LayerEntry S) :=
  chainFrom layers head.id (layers.map fun entry => entry.1.id) layer

/-- A layer whose parent has been looked up. -/
def settled (layers : List (LayerEntry S)) (layer : Layer S) : Layer S :=
  if layer.parentIndex.isSome && layer.link.isNone then
    { layer with link := some ((parent? layers layer).map fun entry => entry.1.id) }
  else layer

end Parenting

end VectorMotion.Scene
