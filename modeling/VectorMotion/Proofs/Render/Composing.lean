import VectorMotion.Proofs.Render.Copies
import VectorMotion.Proofs.Scene.Following

/-!
# Where layers that follow others are drawn

The layers that a layer follows are told to a canvas outermost first, and then comes the transform of
the layer itself. Nothing else moves a layer of a scene: it begins with nothing set, and effects set
colours only. So the map under which its contents are drawn is a product along its chain. As the
chain of a layer is that of its parent behind the parent, the map of the layer is that of its parent
with its own behind it.

Maps are multiplied in the order in which they are met, and no two of them are multiplied otherwise,
so this needs no law of multiplication.
-/

namespace VectorMotion.Render

open Scene Parenting

variable {S P : Type} [Scalar S] [Scalar P] [Widen S P]

/-- The map of a layer: those of the layers that it follows, outermost first, and then its own. -/
def composed (layers : List (LayerEntry S)) (entry : LayerEntry S) : Affine P :=
  (chain layers entry.1 entry.2).reverse.foldl
    (fun placed parent => placed * parent.2.transform.map) Affine.identity *
      entry.2.transform.map

/-- Behind a parent with its chain comes the layer's own map. -/
theorem composed_behind {layers : List (LayerEntry S)} {entry parent : LayerEntry S}
    (behind : chain layers entry.1 entry.2 = parent :: chain layers parent.1 parent.2) :
    (composed layers entry : Affine P) = composed layers parent * entry.2.transform.map := by
  rw [composed, behind, List.reverse_cons, List.foldl_append]
  rfl

variable [Measure P]

namespace Canvas

/-- Each layer that is followed moves what comes behind it. -/
theorem parents_placed (canvas : Canvas S P) (followed : List (LayerEntry S)) (head : Head)
    (layer : Layer S) :
    (canvas.answerAll (Call.parents followed head layer)).brush.placed =
      (chain followed head layer).reverse.foldl
        (fun placed parent => placed * parent.2.transform.map) canvas.brush.placed := by
  unfold Call.parents
  generalize (chain followed head layer).reverse = parents
  induction parents generalizing canvas with
  | nil => rfl
  | cons parent rest inductionHypothesis =>
    exact inductionHypothesis (canvas.answer (.visit parent.1 (.parentTransform parent.2.transform)))

/-- Floods move nothing. -/
theorem floods_placed (calls : List (Call S P))
    (floods : ∀ call ∈ calls, ∃ head flood, call = .visit head (.flood flood))
    (canvas : Canvas S P) : (canvas.answerAll calls).brush.placed = canvas.brush.placed := by
  induction calls generalizing canvas with
  | nil => rfl
  | cons call rest inductionHypothesis =>
    obtain ⟨⟨head, flood, rfl⟩, restFloods⟩ := List.forall_mem_cons.mp floods
    exact inductionHypothesis restFloods (canvas.answer (.visit head (.flood flood)))

/-- Where the contents of a layer begin, they are under the maps of all layers that it follows, and
under its own. -/
theorem opening_placed (canvas : Canvas S P) (followed : List (LayerEntry S)) (head : Head)
    (layer : Layer S) {effects : List (Node S P)} (fit : ∀ effect ∈ effects, effect.Fits .effect) :
    (canvas.answerAll (Call.opening followed head layer effects)).brush.placed =
      (chain followed head layer).reverse.foldl
        (fun placed parent => placed * parent.2.transform.map) canvas.brush.placed *
          layer.transform.map := by
  let saved := canvas.answerAll [.save]
  let lit := saved.answerAll (effects.flatMap (Call.ofNode followed))
  let moved := lit.answerAll (Call.parents followed head layer)
  have unmoved : lit.brush.placed = canvas.brush.placed := by
    refine floods_placed _ (fun call member => ?_) saved
    obtain ⟨effect, inside, member⟩ := List.mem_flatMap.mp member
    exact Call.effects_flood followed (fit effect inside) call member
  have shown : (moved.answerAll ([.visit head (Call.ofLayerKind layer.kind),
      .visit head (.transform layer.transform), .saveTrimming] ++
        Call.enterTrim layer.trim)).brush.placed = moved.brush.placed * layer.transform.map := by
    have kept (canvas : Canvas S P) : canvas.placePicture.brush = canvas.brush := by
      unfold placePicture
      split <;> rfl
    cases layer.kind <;> cases layer.trim <;> exact congrArg Brush.placed (kept _)
  rw [← unmoved, ← parents_placed, ← shown]
  simp only [Call.opening, answerAll_append, List.append_assoc, moved, lit, saved]

end Canvas

/-- However a tree has grown, and whatever numbers its document gives, the layers that a layer follows
are different layers under the root, and other ones than the layer itself. Each is the one that is
followed by the one before, and the last one follows none, or one that has been met. There are no
more of them than layers under the root. Unless the way from a layer leads back to it, it follows its
parent and then what its parent follows.

In every state of a scene the contents of a layer that is drawn begin under the map that is composed
along its chain; unless it is on a circle, this is the map of its parent with its own behind it. -/
theorem parents_compose :
    (∀ tree : Tree S P, tree.Grown → ∀ placed ∈ tree.placed, ∀ layer,
      placed.node.layer? = some layer →
        let start : LayerEntry S := (placed.node.head, layer)
        IsLine tree.layers start (tree.parents placed.node) ∧
          (tree.parents placed.node).length ≤ tree.layers.length ∧
          ∀ parent, parent? tree.layers layer = some parent → ¬OnCircle tree.layers start →
            ∃ other ∈ tree.root.children, other.head = parent.1 ∧ other.layer? = some parent.2 ∧
              tree.parents placed.node = parent :: tree.parents other) ∧
      ∀ (settings : Trim.Settings) (document : Document S) (scene : Scene S P),
        Reachable settings document scene → ∀ node ∈ scene.tree.root.children, ∀ layer,
          node.layer? = some layer → node.head.hidden = false → layer.active = true →
            let layers := scene.tree.layers
            let opening := Call.opening layers node.head layer node.effects
            (∃ before after, scene.calls =
                before ++ opening ++ node.children.flatMap (Call.ofNode layers) ++ after ∧
              (Canvas.ofCalls (before ++ opening)).brush.placed =
                composed layers (node.head, layer)) ∧
            ∀ parent, parent? layers layer = some parent → ¬OnCircle layers (node.head, layer) →
              (composed layers (node.head, layer) : Affine P) =
                composed layers parent * layer.transform.map := by
  constructor
  · intro tree grown placed standing layer isLayer start
    have line := grown.counted.parents_line isLayer
    exact ⟨line, line.length_le, fun parent follows noCircle =>
      grown.counted.parents_behind standing isLayer follows noCircle⟩
  · intro settings document scene reachable node standing layer isLayer shown active layers opening
    constructor
    · obtain ⟨owner, kind, effects, children⟩ := node
      obtain rfl : kind = .layer layer := by
        cases kind <;> simp_all [Node.layer?, Node.kind, Kind.layer?]
      obtain ⟨effectsFit, -, before, after, all, fresh⟩ :=
        Canvas.layer_begins reachable.fits standing shown active
      refine ⟨before, after, all, ?_⟩
      have placed := (Canvas.ofCalls before).opening_placed layers owner layer effectsFit
      rw [fresh] at placed
      rw [Canvas.ofCalls, Canvas.answerAll_append]
      exact placed
    · intro parent follows noCircle
      have counted := reachable.grown.counted
      have apart := counted.never_back (scene.tree.child_placed standing) isLayer noCircle
      exact composed_behind (chain_parent counted.layers_distinct follows apart)

/-- Three layers: the first follows the second, and the second and the third follow each other. -/
def tailAndCircle : Document Float32 :=
  let layer (name : String) (index parent : Nat) : Json.Value :=
    .object [("ind", .natural index), ("nm", .text name), ("op", .natural 60),
      ("parent", .natural parent), ("ty", .natural 4)]
  { frameRate := 30
    inPoint := 0
    outPoint := 60
    layers := [layer "Tail" 1 2, layer "Near" 2 3, layer "Far" 3 2] }

/-- The tail is not on the circle, so it follows the layer near to it, and then the one that this
layer follows. -/
theorem tail_composed :
    let scene : Scene Float32 Float := Scene.ofDocument {} tailAndCircle
    let layers := scene.tree.layers
    ∃ tail ∈ scene.tree.root.children, ∃ near ∈ scene.tree.root.children, ∃ layer parent,
      tail.layer? = some layer ∧ near.head = parent.1 ∧ near.layer? = some parent.2 ∧
        (scene.tree.parents tail).map (·.1.name) = ["Near", "Far"] ∧
        scene.tree.parents tail = parent :: scene.tree.parents near ∧
        (composed layers (tail.head, layer) : Affine Float) =
          composed layers parent * layer.transform.map := by
  intro scene layers
  let inside : 2 < scene.tree.root.children.length := by decide +kernel
  let tail := scene.tree.root.children[2]
  have standing : tail ∈ scene.tree.root.children := List.getElem_mem inside
  have chained : (scene.tree.parents tail).map (·.1.name) = ["Near", "Far"] := by decide +kernel
  have number : tail.head.id = 1 ∧ tail.head.hidden = false := by decide +kernel
  have isLayer : tail.layer?.map (·.active) = some true := by decide +kernel
  have free : ∀ other ∈ layers, (parent? layers other.2).map (·.1.id) ≠ some 1 := by decide +kernel
  have followed : (tail.layer?.bind (parent? layers)).isSome = true := by decide +kernel
  obtain ⟨trees, scenes⟩ := parents_compose (S := Float32) (P := Float)
  obtain ⟨layer, content, active⟩ := Option.map_eq_some_iff.mp isLayer
  obtain ⟨parent, follows⟩ := Option.isSome_iff_exists.mp followed
  rw [content] at follows
  have noCircle : ¬OnCircle layers (tail.head, layer) := fun circle => by
    obtain ⟨-, other, among, back⟩ := circle.followed
    refine free other among ?_
    rw [show parent? layers other.2 = some (tail.head, layer) from back]
    exact congrArg some number.1
  obtain ⟨-, -, behind⟩ := trees scene.tree (Reachable.grown .loaded) ⟨_, tail⟩
    (scene.tree.child_placed standing) layer content
  obtain ⟨near, child, head, isNear, parents⟩ := behind parent follows noCircle
  refine ⟨tail, standing, near, child, layer, parent, content, head, isNear, chained, parents, ?_⟩
  exact (scenes {} tailAndCircle scene .loaded tail standing layer content number.2 active).2
    parent follows noCircle

end VectorMotion.Render
