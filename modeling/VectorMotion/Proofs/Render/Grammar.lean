import VectorMotion.Proofs.Scene.Inheritance
import VectorMotion.Render.Call

/-!
# The grammar of a drawing

The calls that draw a scene at a frame are not any calls. They are built up as the scene is:
contents are shapes, settings and groups in any order, a layer is a bracket around contents, and a
scene is a bracket around layers. What bringing the scene to a frame has stored is part of the
grammar: a shape stands only where its own trim is in force, and a group says truly whether it adds
to the trim around it.

The calls are tied to the tree here, once. Whatever answers calls can then be followed along the
grammar, with no tree in sight.
-/

namespace VectorMotion.Render

open Scene

variable {S P : Type}

/-- A visit that only sets how the shapes behind it are drawn. -/
def Visit.isSetting : Visit S P → Bool
  | parentTransform _ | groupTransform _ | fill _ | gradient _ | stroke _ | repeater _
  | flood _ => true
  | layer | picture _ | group | transform _ | shape _ | trim _ => false

namespace Call

/-- A call that only sets how the shapes behind it are drawn. -/
def IsSetting (call : Call S P) : Prop :=
  ∃ head : Head, ∃ visit, call = .visit head visit ∧ visit.isSetting = true

/-- Calls for contents that are under a trim. A group that does not add to the trim holds the one
around it, and one that holds none is under none. -/
inductive Contents : Option (Trim.Window S) → List (Call S P) → Prop where
  | nothing (around : Option (Trim.Window S)) : Contents around []
  | sequence (around : Option (Trim.Window S)) (first second : List (Call S P))
      (firstContents : Contents around first) (secondContents : Contents around second) :
      Contents around (first ++ second)
  | setting (around : Option (Trim.Window S)) (call : Call S P) (sets : call.IsSetting) :
      Contents around [call]
  | shape (head : Head) (shape : Scene.Shape S P) :
      Contents shape.trim [visit head (.shape shape)]
  | group (around : Option (Trim.Window S)) (head : Head) (group : Scene.Group S)
      (inside : List (Call S P)) (free : group.trim = none → around = none)
      (inherited : group.ownsTrim = false → group.trim = around)
      (insideContents : Contents group.trim inside) : Contents around (Call.group head group inside)

/-- Calls for layers. Nothing is around them; each draws its contents under its own trim. -/
inductive Layers : List (Call S P) → Prop where
  | nothing : Layers []
  | sequence (first second : List (Call S P)) (firstLayers : Layers first)
      (secondLayers : Layers second) : Layers (first ++ second)
  | layer (followed : List (LayerEntry S)) (head : Head) (content : Scene.Layer S)
      (effects inside : List (Call S P)) (effectsSet : ∀ call ∈ effects, call.IsSetting)
      (insideContents : Contents content.trim inside) :
      Layers (Call.layer followed head content effects inside)

/-- Calls that are made under a trim, in a bracket of the trimming state. -/
def trimmed (trim : Option (Trim.Window S)) (calls : List (Call S P)) : List (Call S P) :=
  [saveTrimming] ++ enterTrim trim ++ calls ++ [restoreTrimming]

/-- A group is a bracket around calls under its trim. -/
theorem group_bracket (head : Head) (content : Scene.Group S) (inside : List (Call S P)) :
    group head content inside = [save] ++ trimmed content.trim ([visit head .group] ++ inside ++
      if content.ownsTrim then applyTrim head content.trim else []) ++ [restore] := by
  simp [group, trimmed]

/-- A layer that is shown is a bracket around calls that place it, and others under its trim. -/
theorem layer_bracket (followed : List (LayerEntry S)) (head : Head) (content : Scene.Layer S)
    (effects inside : List (Call S P)) (shown : content.active = true) :
    layer followed head content effects inside = [save] ++
      ((effects ++ parents followed head content ++
        [visit head (ofLayerKind content.kind), visit head (.transform content.transform)]) ++
      trimmed content.trim (inside ++ applyTrim head content.trim)) ++ [restore] := by
  simp [layer, trimmed, shown]

/-- A layer that is not shown gives no calls. -/
theorem layer_inactive (followed : List (LayerEntry S)) (head : Head) (content : Scene.Layer S)
    (effects inside : List (Call S P)) (unseen : content.active = false) :
    layer followed head content effects inside = [] := by
  simp [layer, unseen]

/-- The shape that a call draws. -/
def shape? : Call S P → Option (Head × Scene.Shape S P)
  | visit head (.shape shape) => some (head, shape)
  | _ => none

/-- The calls for some nodes are those for each, one after the other. -/
theorem ofNodes_flatMap (followed : List (LayerEntry S)) (nodes : List (Node S P)) :
    ofNodes followed nodes = nodes.flatMap (ofNode followed) := by
  induction nodes with
  | nil => rfl
  | cons first rest inductionHypothesis =>
    simp only [ofNodes, inductionHypothesis, List.flatMap_cons]

/-- Hidden nodes give no calls. -/
theorem of_hidden (followed : List (LayerEntry S)) (head : Head) (kind : Kind S P)
    (effects children : List (Node S P)) (hidden : head.hidden = true) :
    ofNode followed (.mk head kind effects children) = [] := by
  simp [ofNode, hidden]

section Nodes

variable (followed : List (LayerEntry S)) (head : Head)

/-- The calls for a node that is not hidden, with those for its parts one after the other. -/
theorem of_shown (kind : Kind S P) (effects children : List (Node S P))
    (shown : head.hidden = false) :
    ofNode followed (.mk head kind effects children) =
      match kind with
      | .root => [save] ++ children.flatMap (ofNode followed) ++ [restore]
      | .layer content =>
        layer followed head content (effects.flatMap (ofNode followed))
          (children.flatMap (ofNode followed))
      | .group content => group head content (children.flatMap (ofNode followed))
      | .effectGroup => children.flatMap (ofNode followed)
      | other => leaf head other := by
  cases kind <;> simp only [ofNode, shown, Bool.false_eq_true, ↓reduceIte, ofNodes_flatMap]

/-- The calls for a root are a bracket around those for its children. -/
theorem of_root (effects children : List (Node S P)) (shown : head.hidden = false) :
    ofNode followed (.mk head .root effects children) =
      [save] ++ children.flatMap (ofNode followed) ++ [restore] :=
  of_shown followed head .root effects children shown

/-- The calls for a group are a bracket around those for its children, under its trim. -/
theorem of_group (group : Scene.Group S) (effects children : List (Node S P))
    (shown : head.hidden = false) :
    ofNode followed (.mk head (.group group) effects children) = [save] ++
      trimmed group.trim ([visit head .group] ++ children.flatMap (ofNode followed) ++
        if group.ownsTrim then applyTrim head group.trim else []) ++ [restore] :=
  (of_shown followed head (.group group) effects children shown).trans (group_bracket ..)

/-- The calls for a layer that is shown are a bracket around those that place it and, under its
trim, those for its children. -/
theorem of_layer (layer : Scene.Layer S) (effects children : List (Node S P))
    (shown : head.hidden = false) (active : layer.active = true) :
    ofNode followed (.mk head (.layer layer) effects children) = [save] ++
      ((effects.flatMap (ofNode followed) ++ parents followed head layer ++
        [visit head (ofLayerKind layer.kind), visit head (.transform layer.transform)]) ++
      trimmed layer.trim (children.flatMap (ofNode followed) ++ applyTrim head layer.trim)) ++
      [restore] :=
  (of_shown followed head (.layer layer) effects children shown).trans
    (layer_bracket _ _ _ _ _ active)

/-- A layer that is not shown gives no calls. -/
theorem of_unseen (layer : Scene.Layer S) (effects children : List (Node S P))
    (unseen : layer.active = false) :
    ofNode followed (.mk head (.layer layer) effects children) = [] := by
  cases hidden : head.hidden with
  | true => exact of_hidden _ _ _ _ _ hidden
  | false => exact (of_shown _ _ _ _ _ hidden).trans (layer_inactive _ _ _ _ _ unseen)

/-- The calls for a group of effects are those for its children. -/
theorem of_effect_group (effects children : List (Node S P)) (shown : head.hidden = false) :
    ofNode followed (.mk head .effectGroup effects children) =
      children.flatMap (ofNode followed) :=
  of_shown followed head .effectGroup effects children shown

/-- The calls for any other node. -/
theorem of_leaf (kind : Kind S P) (effects children : List (Node S P))
    (shown : head.hidden = false) (plain : kind.isContainer = false) :
    ofNode followed (.mk head kind effects children) = leaf head kind := by
  rw [of_shown _ _ _ _ _ shown]
  cases kind <;> first | rfl | nomatch plain

end Nodes

/-- The calls for the layers that a layer follows only place it. -/
theorem parents_set (followed : List (LayerEntry S)) (head : Head) (layer : Scene.Layer S) :
    ∀ call ∈ (parents followed head layer : List (Call S P)), call.IsSetting := by
  intro call member
  obtain ⟨⟨head, parent⟩, -, rfl⟩ := List.mem_map.mp member
  exact ⟨head, _, rfl, rfl⟩

/-- Contents for each of some nodes are contents for all of them. -/
theorem Contents.flatMap {around : Option (Trim.Window S)} {nodes : List (Node S P)}
    {calls : Node S P → List (Call S P)} (each : ∀ node ∈ nodes, Contents around (calls node)) :
    Contents around (nodes.flatMap calls) := by
  induction nodes with
  | nil => exact .nothing _
  | cons first rest inductionHypothesis =>
    rw [List.flatMap_cons]
    exact .sequence _ _ _ (each first List.mem_cons_self)
      (inductionHypothesis fun node member => each node (List.mem_cons_of_mem _ member))

/-- Layers for each of some nodes are layers for all of them. -/
theorem Layers.flatMap {nodes : List (Node S P)} {calls : Node S P → List (Call S P)}
    (each : ∀ node ∈ nodes, Layers (calls node)) : Layers (nodes.flatMap calls) := by
  induction nodes with
  | nil => exact .nothing
  | cons first rest inductionHypothesis =>
    rw [List.flatMap_cons]
    exact .sequence _ _ (each first List.mem_cons_self)
      (inductionHypothesis fun node member => each node (List.mem_cons_of_mem _ member))

variable [Scalar S] [Scalar P] [Widen S P] [Measure P]

/-- Effects are floods, also those in groups at any depth. -/
theorem effects_flood (followed : List (LayerEntry S)) {node : Node S P} (fits : node.Fits .effect) :
    ∀ call ∈ ofNode followed node, ∃ head flood, call = visit head (.flood flood) := by
  induction node, fits using Node.Fits.effect_induction with
  | group head children childrenFit childrenFlood =>
    intro call member
    cases hidden : head.hidden with
    | true => simp [of_hidden _ _ _ _ _ hidden] at member
    | false =>
      rw [of_effect_group _ _ _ _ hidden, List.mem_flatMap] at member
      obtain ⟨child, inside, member⟩ := member
      exact childrenFlood child inside call member
  | control head kind control =>
    intro call member
    cases hidden : head.hidden with
    | true => simp [of_hidden _ _ _ _ _ hidden] at member
    | false =>
      rw [of_shown _ _ _ _ _ hidden] at member
      cases kind with
      | flood flood => exact ⟨head, flood, List.mem_singleton.mp member⟩
      | slider slider => nomatch member
      | _ => simp [Kind.isControl] at control

/-- Effects only set the colour of what follows. -/
theorem effects_set (followed : List (LayerEntry S)) {node : Node S P} (fits : node.Fits .effect) :
    ∀ call ∈ ofNode followed node, call.IsSetting := by
  intro call member
  obtain ⟨head, flood, rfl⟩ := effects_flood followed fits call member
  exact ⟨head, _, rfl, rfl⟩

/-- The calls for contents that are at a time are contents under the trim around them.

The induction follows the contents. A shape that is at a time holds the trim around it, and a group
holds what its own windows make of that trim, so it holds the same trim if it has no windows. -/
theorem content_phrase (followed : List (LayerEntry S)) {node : Node S P}
    (fits : node.Fits .content) {time : S} {around : Option (Trim.Window S)}
    (current : node.AtTime time around) : Contents around (ofNode followed node) := by
  induction node, fits using Node.Fits.content_induction generalizing around with
  | plain head kind plain coherent =>
    cases hidden : head.hidden with
    | true =>
      rw [of_hidden _ _ _ _ _ hidden]
      exact .nothing _
    | false =>
      rw [of_shown _ _ _ _ _ hidden]
      cases kind with
      | shape shape =>
        have shown : (Node.mk head (.shape shape) [] []).head.hidden = false := hidden
        obtain ⟨rfl, -⟩ := Node.shape_at_time rfl shown current
        exact .shape head shape
      | trim trim => exact .nothing _
      | transform _ | fill _ | gradient _ | stroke _ | repeater _ =>
        exact .setting _ _ ⟨head, _, rfl, rfl⟩
      | _ => simp [Kind.isPlain] at plain
  | group head group children childrenFit childrenContents =>
    cases hidden : head.hidden with
    | true =>
      rw [of_hidden _ _ _ _ _ hidden]
      exact .nothing _
    | false =>
      have shown : (Node.mk head (.group group) [] children).head.hidden = false := hidden
      obtain ⟨-, -, childrenCurrent⟩ := Node.container_at_time _ _ _ _ _ _ hidden rfl current
      obtain ⟨trim, owns⟩ := Node.group_at_time rfl shown current
      have free : group.trim = none → around = none := fun noTrim =>
        ((Node.meet_all_none _ _).mp (trim.symm.trans noTrim)).1
      have inherited : group.ownsTrim = false → group.trim = around := by
        intro ownsNone
        rw [owns, Bool.not_eq_false', List.isEmpty_iff] at ownsNone
        rw [trim, ownsNone]
        rfl
      have inside : Contents group.trim (children.flatMap (ofNode followed)) :=
        .flatMap fun child member => childrenContents child member
          (by rw [trim]; exact childrenCurrent child member)
      rw [of_shown _ _ _ _ _ hidden]
      exact .group around head group _ free inherited inside

/-- The calls for a layer that is at a frame are calls for layers. -/
theorem layer_phrase (followed : List (LayerEntry S)) {node : Node S P} (fits : node.Fits .layer)
    {frame : S} (current : node.AtTime frame none) : Layers (ofNode followed node) := by
  cases fits with
  | layer head content effects children effectsFit childrenFit =>
    cases hidden : head.hidden with
    | true =>
      rw [of_hidden _ _ _ _ _ hidden]
      exact .nothing
    | false =>
      have shown : (Node.mk head (.layer content) effects children).head.hidden = false := hidden
      obtain ⟨-, -, childrenCurrent⟩ := Node.container_at_time _ _ _ _ _ _ hidden rfl current
      obtain ⟨trim, -⟩ := Node.layer_at_time rfl shown current
      have inside : Contents content.trim (children.flatMap (ofNode followed)) :=
        .flatMap fun child member => content_phrase followed (childrenFit child member)
          (by rw [trim]; exact childrenCurrent child member)
      have effectsSet : ∀ call ∈ effects.flatMap (ofNode followed), call.IsSetting := by
        intro call member
        obtain ⟨effect, inEffects, member⟩ := List.mem_flatMap.mp member
        exact effects_set followed (effectsFit effect inEffects) call member
      rw [of_shown _ _ _ _ _ hidden]
      exact .layer followed head content _ _ effectsSet inside

/-- The calls that draw a scene at a frame are one bracket around calls for layers. -/
theorem scene_phrase {settings : Trim.Settings} {document : Document S} {scene : Scene S P}
    (reachable : Reachable settings document scene) (frame : S) :
    ∃ layers, Layers layers ∧ (scene.update frame).calls = [save] ++ layers ++ [restore] := by
  have fits := (reachable.updated scene frame).fits
  have current : (scene.update frame).tree.root.AtTime frame none := Node.update_at_time _ _ _
  unfold Scene.calls ofRoot
  generalize Parenting.entries _ = followed
  generalize (scene.update frame).tree.root = root at fits current
  cases fits with
  | root head layers visible layersFit =>
    obtain ⟨-, -, layersCurrent⟩ := Node.container_at_time _ _ _ _ _ _ visible rfl current
    refine ⟨layers.flatMap (ofNode followed), .flatMap fun layer member => ?_, ?_⟩
    · have here := layersCurrent layer member
      rw [Node.trimWithin, Node.children, Node.no_trims_at_root _ _ layersFit] at here
      exact layer_phrase followed (layersFit layer member) here
    · exact of_root followed head [] layers visible

end Call

end VectorMotion.Render
