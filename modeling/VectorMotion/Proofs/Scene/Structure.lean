import VectorMotion.Proofs.Scene.Evaluation
import VectorMotion.Render.Call
import VectorMotion.Scene

/-!
# What scenes are made of

Nodes do not stand anywhere in a scene. Under the root there are layers and nothing else; a layer
has effects, which are controls or groups of controls, and contents, which are groups or plain
nodes such as shapes and paints. Only containers have anything below them. What a plain node
derives from its tracks is moreover always that of its current values, also of one that has never
been brought to a time.

Building a document makes such a scene, and bringing it to a time or drawing it keeps it one. What
holds of every scene that a document can be brought to is therefore proved of trees of this form.
-/

namespace VectorMotion.Scene

variable {S P : Type}

namespace Kind

/-- A node other than a group that stands among the contents of a layer. -/
def isPlain : Kind S P → Bool
  | transform _ | shape _ | fill _ | gradient _ | stroke _ | trim _ | repeater _ => true
  | _ => false

/-- An effect other than a group of effects. -/
def isControl : Kind S P → Bool
  | slider _ | flood _ => true
  | _ => false

end Kind

/-- The places at which a node can stand in a scene. -/
inductive Place where
  | scene
  | layer
  | effect
  | content
  deriving DecidableEq

/-- The place at which a node of a kind stands. -/
def Kind.place : Kind S P → Place
  | root => .scene
  | layer _ => .layer
  | effectGroup | slider _ | flood _ => .effect
  | _ => .content

/-- Plain are the contents that hold nothing. -/
theorem Kind.is_plain_iff (kind : Kind S P) :
    kind.isPlain = true ↔ kind.place = .content ∧ kind.isContainer = false := by
  cases kind <;> simp [isPlain, place, isContainer]

/-- Controls are the effects that hold nothing. -/
theorem Kind.is_control_iff (kind : Kind S P) :
    kind.isControl = true ↔ kind.place = .effect ∧ kind.isContainer = false := by
  cases kind <;> simp [isControl, place, isContainer]

variable [Scalar S] [Scalar P] [Widen S P] [Measure P]

namespace Kind

/-- What a node derives from its tracks is what its current values give. The path of a shape is its
outline, cut at most once. -/
def Coherent : Kind S P → Prop
  | transform content => content.shear = Shear.ofAngles content.skew.value content.skewAxis.value
  | shape content =>
    content.path = Shape.trimmed content.trim (Shape.untrimmed content.contour content.reversed)
  | gradient content => content.stops = GradientStop.expand content.table.value content.colorCount
  | trim content =>
    content.window.start = content.start.value ∧ content.window.finish = content.finish.value ∧
      content.window.offset = content.offset.value
  | repeater content =>
    content.step.opacities = (content.step.fadeOver content.count).opacities
  | _ => True

/-- Bringing a plain node to a time makes anew all that it derives. The stops of a table that is not
animated are kept, and so is the table. -/
theorem leaf_coherent (kind : Kind S P) (time : S) (around : Option (Trim.Window S))
    (coherent : kind.Coherent) : (kind.updateLeaf time around).Coherent := by
  cases kind with
  | gradient content =>
    cases animated : content.table.animated with
    | true => simp [updateLeaf, Coherent, GradientFill.update, animated]
    | false =>
      have kept : content.table.update time = content.table := by simp [Track.update, animated]
      simpa [updateLeaf, Coherent, GradientFill.update, animated, kept] using coherent
  | transform content => exact rfl
  | shape content => exact rfl
  | trim content => exact ⟨rfl, rfl, rfl⟩
  | repeater content => exact rfl
  | _ => exact coherent

/-- Evaluating a kind changes nothing about where it may stand. -/
theorem leaf_place (kind : Kind S P) (time : S) (around : Option (Trim.Window S)) :
    (kind.updateLeaf time around).place = kind.place := by
  cases kind <;> rfl

end Kind

namespace Node

/-- A node that may stand at a place, with all that is below it. -/
inductive Fits : Place → Node S P → Prop where
  | root (head : Head) (layers : List (Node S P)) (shown : head.hidden = false)
      (layersFit : ∀ layer ∈ layers, Fits .layer layer) : Fits .scene (.mk head .root [] layers)
  | layer (head : Head) (layer : Layer S) (effects children : List (Node S P))
      (effectsFit : ∀ effect ∈ effects, Fits .effect effect)
      (childrenFit : ∀ child ∈ children, Fits .content child) :
      Fits .layer (.mk head (.layer layer) effects children)
  | group (head : Head) (group : Group S) (children : List (Node S P))
      (childrenFit : ∀ child ∈ children, Fits .content child) :
      Fits .content (.mk head (.group group) [] children)
  | plain (head : Head) (kind : Kind S P) (plain : kind.isPlain = true)
      (coherent : kind.Coherent) : Fits .content (.mk head kind [] [])
  | effectGroup (head : Head) (children : List (Node S P))
      (childrenFit : ∀ child ∈ children, Fits .effect child) :
      Fits .effect (.mk head .effectGroup [] children)
  | control (head : Head) (kind : Kind S P) (control : kind.isControl = true) :
      Fits .effect (.mk head kind [] [])

/-- The kind of a node decides where it may stand. -/
theorem Fits.kind_place {place : Place} {node : Node S P} (fits : node.Fits place) :
    node.kind.place = place := by
  cases fits with
  | plain head kind plain coherent => exact (kind.is_plain_iff.mp plain).1
  | control head kind control => exact (kind.is_control_iff.mp control).1
  | _ => rfl

/-- A node fits at one place only. -/
theorem Fits.place_unique {place other : Place} {node : Node S P} (fits : node.Fits place)
    (stands : node.kind.place = other) : place = other := fits.kind_place.symm.trans stands

/-- Induction on contents: a group, of which the children may be assumed, or a plain node. -/
@[elab_as_elim]
theorem Fits.content_induction {motive : (node : Node S P) → node.Fits .content → Prop}
    (group : ∀ head group children (childrenFit : ∀ child ∈ children, child.Fits .content),
      (∀ child (member : child ∈ children), motive child (childrenFit child member)) →
      motive (.mk head (.group group) [] children) (.group head group children childrenFit))
    (plain : ∀ head kind (plain : kind.isPlain = true) (coherent : kind.Coherent),
      motive (.mk head kind [] []) (.plain head kind plain coherent))
    (node : Node S P) (fits : node.Fits .content) : motive node fits := by
  induction node with
  | mk head kind effects children effectsHold childrenHold =>
    cases fits with
    | group head content children childrenFit =>
      exact group head content children childrenFit fun child member =>
        childrenHold child member (childrenFit child member)
    | plain head kind isPlain coherent => exact plain head kind isPlain coherent

/-- Induction on effects: a group of effects, of which the children may be assumed, or a control. -/
@[elab_as_elim]
theorem Fits.effect_induction {motive : (node : Node S P) → node.Fits .effect → Prop}
    (group : ∀ head children (childrenFit : ∀ child ∈ children, child.Fits .effect),
      (∀ child (member : child ∈ children), motive child (childrenFit child member)) →
      motive (.mk head .effectGroup [] children) (.effectGroup head children childrenFit))
    (control : ∀ head kind (control : kind.isControl = true),
      motive (.mk head kind [] []) (.control head kind control))
    (node : Node S P) (fits : node.Fits .effect) : motive node fits := by
  induction node with
  | mk head kind effects children effectsHold childrenHold =>
    cases fits with
    | effectGroup head children childrenFit =>
      exact group head children childrenFit fun child member =>
        childrenHold child member (childrenFit child member)
    | control head kind isControl => exact control head kind isControl

/-- A node may take the place of another of its sort, if its effects and children keep theirs. -/
theorem Fits.rebuild {place : Place} {head : Head} {kind : Kind S P}
    {effects children : List (Node S P)} (fits : (mk head kind effects children).Fits place)
    (other : Kind S P) (samePlace : other.place = kind.place)
    (sameSort : other.isContainer = kind.isContainer) (coherent : kind.Coherent → other.Coherent)
    (onEffects onChildren : Node S P → Node S P)
    (effectsKept : ∀ effect ∈ effects, ∀ place, effect.Fits place → (onEffects effect).Fits place)
    (childrenKept : ∀ child ∈ children, ∀ place, child.Fits place → (onChildren child).Fits place) :
    (mk head other (effects.map onEffects) (children.map onChildren)).Fits place := by
  cases fits with
  | root head layers shown layersFit =>
    obtain rfl : other = .root := by cases other <;> simp [Kind.place] at samePlace ⊢
    exact .root _ _ shown (List.forall_mem_map.mpr fun layer member =>
      childrenKept layer member _ (layersFit layer member))
  | layer head layer effects children effectsFit childrenFit =>
    obtain ⟨newLayer, rfl⟩ : ∃ newLayer, other = .layer newLayer := by
      cases other <;> simp [Kind.place] at samePlace ⊢
    exact .layer _ _ _ _
      (List.forall_mem_map.mpr fun effect member =>
        effectsKept effect member _ (effectsFit effect member))
      (List.forall_mem_map.mpr fun child member =>
        childrenKept child member _ (childrenFit child member))
  | group head group children childrenFit =>
    obtain ⟨newGroup, rfl⟩ : ∃ newGroup, other = .group newGroup := by
      cases other <;> simp [Kind.place, Kind.isContainer] at samePlace sameSort ⊢
    exact .group _ _ _ (List.forall_mem_map.mpr fun child member =>
      childrenKept child member _ (childrenFit child member))
  | effectGroup head children childrenFit =>
    obtain rfl : other = .effectGroup := by
      cases other <;> simp [Kind.place, Kind.isContainer] at samePlace sameSort ⊢
    exact .effectGroup _ _ (List.forall_mem_map.mpr fun child member =>
      childrenKept child member _ (childrenFit child member))
  | plain head kind plain isCoherent =>
    obtain ⟨content, leaf⟩ := kind.is_plain_iff.mp plain
    exact .plain _ _ (other.is_plain_iff.mpr ⟨samePlace.trans content, sameSort.trans leaf⟩)
      (coherent isCoherent)
  | control head kind control =>
    obtain ⟨effect, leaf⟩ := kind.is_control_iff.mp control
    exact .control _ _ (other.is_control_iff.mpr ⟨samePlace.trans effect, sameSort.trans leaf⟩)

/-- A node keeps its place when its kind becomes another of its sort. -/
theorem Fits.mapKind {place : Place} {node : Node S P} (fits : node.Fits place)
    (change : Kind S P → Kind S P) (samePlace : ∀ kind, (change kind).place = kind.place)
    (sameSort : ∀ kind, (change kind).isContainer = kind.isContainer)
    (coherent : ∀ kind, kind.Coherent → (change kind).Coherent) :
    (node.mapKind change).Fits place := by
  obtain ⟨head, kind, effects, children⟩ := node
  have rebuilt := fits.rebuild (change kind) (samePlace kind) (sameSort kind) (coherent kind)
    (fun effect => effect) (fun child => child) (fun _ _ _ stands => stands)
    (fun _ _ _ stands => stands)
  simpa [Node.mapKind] using rebuilt

/-- What may stand somewhere is coherent, and so is what is below it. -/
theorem Fits.parts {place : Place} {head : Head} {kind : Kind S P}
    {effects children : List (Node S P)} (fits : (mk head kind effects children).Fits place) :
    kind.Coherent ∧ (∀ effect ∈ effects, ∃ inside, effect.Fits inside) ∧
      ∀ child ∈ children, ∃ inside, child.Fits inside := by
  cases fits with
  | root head layers shown layersFit =>
    exact ⟨trivial, by simp, fun layer member => ⟨_, layersFit layer member⟩⟩
  | layer head layer effects children effectsFit childrenFit =>
    exact ⟨trivial, fun effect member => ⟨_, effectsFit effect member⟩,
      fun child member => ⟨_, childrenFit child member⟩⟩
  | group head group children childrenFit =>
    exact ⟨trivial, by simp, fun child member => ⟨_, childrenFit child member⟩⟩
  | effectGroup head children childrenFit =>
    exact ⟨trivial, by simp, fun child member => ⟨_, childrenFit child member⟩⟩
  | plain head kind plain coherent => exact ⟨coherent, by simp, by simp⟩
  | control head kind control => exact ⟨by cases kind <;> trivial, by simp, by simp⟩

/-- A node keeps its place when it is brought to a time. -/
theorem Fits.update {place : Place} {node : Node S P} (fits : node.Fits place) (time : S)
    (around : Option (Trim.Window S)) : (node.update time around).Fits place := by
  induction node generalizing place time around with
  | mk head kind effects children effectsKept childrenKept =>
    cases hidden : head.hidden with
    | true => rwa [update_hidden _ _ _ _ _ _ hidden]
    | false =>
      cases container : kind.isContainer with
      | true =>
        rw [update_container _ _ _ _ _ _ hidden container]
        exact fits.rebuild _ (by cases kind <;> rfl) (by simp) (by cases kind <;> exact fun h => h)
          _ _ (fun effect member _ stands => effectsKept effect member stands _ _)
          (fun child member _ stands => childrenKept child member stands _ _)
      | false =>
        rw [update_leaf _ _ _ _ _ _ hidden container]
        exact fits.mapKind (·.updateLeaf time around) (·.leaf_place time around)
          (·.leaf_container time around) (·.leaf_coherent time around)

/-- Everything below a node that fits is coherent. -/
theorem Fits.coherent {place : Place} {top : Node S P} (fits : top.Fits place) :
    ∀ node ∈ top.listing, node.kind.Coherent := by
  induction top generalizing place with
  | mk head kind effects children effectsCoherent childrenCoherent =>
    obtain ⟨coherent, effectsFit, childrenFit⟩ := fits.parts
    refine forall_listing.mpr ⟨coherent, fun effect member => ?_, fun child member => ?_⟩
    · obtain ⟨inside, stands⟩ := effectsFit effect member
      exact effectsCoherent effect member stands
    · obtain ⟨inside, stands⟩ := childrenFit child member
      exact childrenCoherent child member stands

end Node

end VectorMotion.Scene
