import VectorMotion.Proofs.Keyframe.Reset
import VectorMotion.Proofs.Scene.Descent

/-!
# Evaluation forgets

Every kind of node stores what it is worth at the time it was last brought to: the values of its
tracks, and what follows from them, such as the path of a shape, the stops of a gradient or the
window of a trim. This module shows, kind by kind and then for whole trees, that bringing a node to
a time leaves nothing of the times before: neither of the stored values nor of the trim that was in
force then. In particular a trim always cuts the outline itself and never what an earlier trim has
left of it.

A node that is at a time is unchanged when it is brought to that time again. This is how later
modules say that a tree has been evaluated, and it passes from a container to all that is in it.
-/

namespace VectorMotion.Scene

variable {S P : Type} [Scalar S]

/-- A placement keeps nothing of an earlier time. -/
@[simp] theorem Placement.update_update (placement : Placement S) (earlier later : S) :
    (placement.update earlier).update later = placement.update later := by
  cases placement <;> simp [Placement.update]

/-- Neither does a transform. -/
@[simp] theorem Transform.update_update (transform : Transform S) (earlier later : S) :
    (transform.update earlier).update later = transform.update later := by
  simp [Transform.update]

/-- Neither does the transform of a group. -/
@[simp] theorem GroupTransform.update_update (group : GroupTransform S) (earlier later : S) :
    (group.update earlier).update later = group.update later := by
  simp [GroupTransform.update, GroupTransform.sheared]

/-- Neither does a contour. -/
@[simp] theorem Contour.update_update (contour : Contour S) (earlier later : S) :
    (contour.update earlier).update later = contour.update later := by
  cases contour <;> simp [Contour.update]

/-- Neither does a fill. -/
@[simp] theorem Fill.update_update (fill : Fill S) (earlier later : S) :
    (fill.update earlier).update later = fill.update later := by
  simp [Fill.update]

/-- Neither does a stroke. -/
@[simp] theorem Stroke.update_update (stroke : Stroke S) (earlier later : S) :
    (stroke.update earlier).update later = stroke.update later := by
  simp [Stroke.update, Function.comp_def]

/-- The stops of a gradient are expanded again exactly when its table is animated, which a change
of time does not alter. -/
@[simp] theorem GradientFill.update_update (gradient : GradientFill S) (earlier later : S) :
    (gradient.update earlier).update later = gradient.update later := by
  by_cases animated : gradient.table.animated = true <;> simp [GradientFill.update, animated]

/-- A trim keeps nothing of an earlier time, and its window is made anew. -/
@[simp] theorem TrimPath.update_update (trim : TrimPath S) (earlier later : S) :
    (trim.update earlier).update later = trim.update later := by
  simp [TrimPath.update, TrimPath.framed]

/-- The opacities of the copies are all made anew, as many as there are copies at the new time. -/
@[simp] theorem Repeater.update_update (repeater : Repeater S) (earlier later : S) :
    (repeater.update earlier).update later = repeater.update later := by
  simp [Repeater.update, Repeater.faded, Repeater.count, Step.fadeOver, Step.update]

/-- Neither does a slider. -/
@[simp] theorem Slider.update_update (slider : Slider S) (earlier later : S) :
    (slider.update earlier).update later = slider.update later := by
  simp [Slider.update]

/-- Neither does a flood. -/
@[simp] theorem Flood.update_update (flood : Flood S) (earlier later : S) :
    (flood.update earlier).update later = flood.update later := by
  simp [Flood.update]

/-- The local time of a layer does not depend on when it was last evaluated. -/
@[simp] theorem Layer.local_time_update (layer : Layer S) (time other : S)
    (trim : Option (Trim.Window S)) :
    (layer.update time trim).localTime other = layer.localTime other := rfl

/-- A layer keeps nothing of an earlier time, nor of the trim that its contents were under then. -/
@[simp] theorem Layer.update_update (layer : Layer S) (earlier later : S)
    (trim trim' : Option (Trim.Window S)) :
    (layer.update earlier trim).update later trim' = layer.update later trim' := by
  have transform := layer.transform.update_update (layer.localTime earlier) (layer.localTime later)
  exact congrArg
    (fun transform => { layer with active := layer.shownAt later, transform, trim := trim' })
    transform

namespace Kind

/-- A container stays one when it is brought to a time. -/
@[simp] theorem container_container (kind : Kind S P) (time : S) (trim : Option (Trim.Window S))
    (owns : Bool) : (kind.updateContainer time trim owns).isContainer = kind.isContainer := by
  cases kind <;> rfl

/-- What time it is for the children does not depend on when the container was last evaluated. -/
@[simp] theorem container_child_time (kind : Kind S P) (time later : S)
    (trim : Option (Trim.Window S)) (owns : Bool) :
    (kind.updateContainer time trim owns).childTime later = kind.childTime later := by
  cases kind <;> rfl

/-- Nor does the trim with which its children begin. -/
@[simp] theorem container_trim_inside (kind : Kind S P) (time : S)
    (trim around : Option (Trim.Window S)) (owns : Bool) :
    (kind.updateContainer time trim owns).trimInside around = kind.trimInside around := by
  cases kind <;> rfl

/-- What a container stores is overwritten by a later time. -/
@[simp] theorem container_again (kind : Kind S P) (earlier later : S)
    (trim trim' : Option (Trim.Window S)) (owns owns' : Bool) :
    (kind.updateContainer earlier trim owns).updateContainer later trim' owns' =
      kind.updateContainer later trim' owns' := by
  cases kind <;> simp [updateContainer]

end Kind

section Shapes

variable [Scalar P] [Widen S P] [Measure P]

/-- The path is made from the contour each time, so a trim of an earlier time leaves no trace. -/
@[simp] theorem Shape.update_update (shape : Shape S P) (earlier later : S)
    (trim trim' : Option (Trim.Window S)) :
    (shape.update earlier trim).update later trim' = shape.update later trim' := by
  simp [Shape.update]

namespace Kind

/-- A node that is no container does not become one. -/
@[simp] theorem leaf_container (kind : Kind S P) (time : S) (around : Option (Trim.Window S)) :
    (kind.updateLeaf time around).isContainer = kind.isContainer := by
  cases kind <;> rfl

/-- What any other node stores is overwritten by a later time, whatever trims are around it. -/
@[simp] theorem leaf_leaf (kind : Kind S P) (earlier later : S)
    (around around' : Option (Trim.Window S)) :
    (kind.updateLeaf earlier around).updateLeaf later around' = kind.updateLeaf later around' := by
  cases kind <;> simp [updateLeaf]

end Kind

namespace Node

/-- The window of a trim at a time does not depend on when the trim was last evaluated. -/
@[simp] theorem window_update (node : Node S P) (earlier later : S)
    (around : Option (Trim.Window S)) :
    (node.update earlier around).windowAt? later = node.windowAt? later := by
  obtain ⟨head, kind, effects, children⟩ := node
  cases hidden : head.hidden with
  | true => rw [update_hidden _ _ _ _ _ _ hidden]
  | false =>
    cases container : kind.isContainer with
    | true =>
      rw [update_container _ _ _ _ _ _ hidden container]
      cases kind <;> rfl
    | false =>
      rw [update_leaf _ _ _ _ _ _ hidden container]
      cases kind <;> simp [windowAt?, Kind.updateLeaf]

/-- Hence neither do the windows among the children of a container. -/
theorem windows_update (nodes : List (Node S P)) (earlier later : S)
    (around : Option (Trim.Window S)) :
    windowsAt later (nodes.map (update earlier around)) = windowsAt later nodes := by
  simp only [windowsAt, List.filterMap_map, Function.comp_def, window_update]

/-- A tree that has been brought to one time and then to another, under whatever trims, is as if it
had been brought to the other at once.

The induction follows the tree. A hidden node is skipped both times. A container sees the same
windows among its children both times, so it hands down the same trim, and what it stores is
overwritten. -/
theorem update_update (node : Node S P) (earlier later : S)
    (around around' : Option (Trim.Window S)) :
    (node.update earlier around).update later around' = node.update later around' := by
  induction node generalizing earlier later around around' with
  | mk head kind effects children effectsForget childrenForget =>
    cases hidden : head.hidden with
    | true => simp only [update_hidden _ _ _ _ _ _ hidden]
    | false =>
      cases container : kind.isContainer with
      | false =>
        rw [update_leaf _ _ _ _ _ _ hidden container,
          update_leaf _ _ _ _ _ _ hidden (by simpa using container), Kind.leaf_leaf,
          update_leaf _ _ _ _ _ _ hidden container]
      | true =>
        rw [update_container _ _ _ _ _ _ hidden container,
          update_container _ _ _ _ _ _ hidden (by simpa using container),
          update_container _ _ _ _ _ _ hidden container]
        simp only [Kind.container_child_time, Kind.container_trim_inside, Kind.container_again,
          windows_update, List.map_map, mk.injEq, true_and]
        refine ⟨List.map_congr_left fun effect member => ?_,
          List.map_congr_left fun child member => ?_⟩
        · exact effectsForget effect member _ _ _ _
        · exact childrenForget child member _ _ _ _

/-- A node that is at a time, under the trim around it: bringing it there changes nothing. -/
def AtTime (time : S) (around : Option (Trim.Window S)) (node : Node S P) : Prop :=
  node.update time around = node

/-- Every node is at the time it has been brought to. -/
theorem update_at_time (node : Node S P) (time : S) (around : Option (Trim.Window S)) :
    (node.update time around).AtTime time around :=
  update_update node time time around around

/-- The trim that a container hands to its children at a time. -/
def trimWithin (time : S) (around : Option (Trim.Window S)) (node : Node S P) :
    Option (Trim.Window S) :=
  meetAll (node.kind.trimInside around) (windowsAt (node.kind.childTime time) node.children)

/-- A shown container that is at a time has stored the trim for its children, and its effects and
children are at their time. -/
theorem container_at_time (time : S) (around : Option (Trim.Window S)) (head : Head)
    (kind : Kind S P) (effects children : List (Node S P)) (shown : head.hidden = false)
    (container : kind.isContainer = true)
    (current : (mk head kind effects children).AtTime time around) :
    kind.updateContainer time (trimWithin time around (mk head kind effects children))
        (!(windowsAt (kind.childTime time) children).isEmpty) = kind ∧
      (∀ effect ∈ effects, effect.AtTime (kind.childTime time) none) ∧
      ∀ child ∈ children, child.AtTime (kind.childTime time)
        (trimWithin time around (mk head kind effects children)) := by
  rw [AtTime, update_container _ _ _ _ _ _ shown container] at current
  obtain ⟨-, stored, effectsCurrent, childrenCurrent⟩ := mk.inj current
  have fixed (change : Node S P → Node S P) (nodes : List (Node S P))
      (same : nodes.map change = nodes) : ∀ node ∈ nodes, change node = node := by
    intro node member
    have both : nodes.map change = nodes.map (fun node => node) := by simpa using same
    exact List.map_inj_left.mp both node member
  exact ⟨stored, fixed _ _ effectsCurrent, fixed _ _ childrenCurrent⟩

/-- Any other shown node that is at a time stores what it is worth then. -/
theorem leaf_at_time (time : S) (around : Option (Trim.Window S)) (head : Head)
    (kind : Kind S P) (effects children : List (Node S P)) (shown : head.hidden = false)
    (plain : kind.isContainer = false)
    (current : (mk head kind effects children).AtTime time around) :
    kind.updateLeaf time around = kind := by
  rw [AtTime, update_leaf _ _ _ _ _ _ shown plain] at current
  exact (mk.inj current).2.1

end Node

end Shapes

end VectorMotion.Scene
