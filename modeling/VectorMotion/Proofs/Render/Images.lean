import VectorMotion.Proofs.Render.Grammar
import VectorMotion.Proofs.Scene.Reference
import VectorMotion.Render.Canvas

/-!
# The images of a drawing

An image in a drawing comes from a layer of the document, and its asset has the name that the layer
gives it. The way leads from the fragment of a layer to the layer that is built from it, on to the
call that shows the layer, and from there to the canvas. Nothing on this way changes an image: what
a layer shows is settled when its head is made, before contents are filled in, and it stays so at
all times.
-/

namespace VectorMotion.Scene

open Json

variable {S P : Type}

/-- The image of a layer that shows one. -/
def LayerKind.image? : LayerKind S → Option (Picture S)
  | .shapes => none
  | .picture image => some image

/-- The image of a node, if it is a layer that shows one. -/
def Kind.image? : Kind S P → Option (Picture S)
  | .layer content => content.kind.image?
  | _ => none

/-- A layer of which the parent has been looked up shows what it showed before. -/
theorem Parenting.settled_image (layers : List (LayerEntry S)) (layer : Layer S) :
    (Kind.layer (Parenting.settled layers layer) : Kind S P).image? = layer.kind.image? := by
  unfold Parenting.settled
  split <;> rfl

namespace Node

/-- Changing what a node is, but not what it shows, keeps the images of all nodes. -/
theorem modify_image (node : Node S P) (id : Nat) (change : Kind S P → Kind S P)
    (kept : ∀ kind, (change kind).image? = kind.image?) :
    (node.modify id (mapKind change)).kind.image? = node.kind.image? := by
  obtain ⟨head, kind, effects, children⟩ := node
  unfold modify
  split
  · exact kept kind
  · rfl

/-- Changing kinds without their images leaves the images of the children. -/
theorem modify_child (node : Node S P) (id : Nat) (change : Kind S P → Kind S P)
    (kept : ∀ kind, (change kind).image? = kind.image?) :
    ∀ child ∈ (node.modify id (mapKind change)).children,
      ∃ before ∈ node.children, child.kind.image? = before.kind.image? := by
  have among (nodes : List (Node S P)) : ∀ child ∈ modifyAll id (mapKind change) nodes,
      ∃ before ∈ nodes, child.kind.image? = before.kind.image? := by
    induction nodes with
    | nil => simp [modifyAll]
    | cons first rest inductionHypothesis =>
      refine List.forall_mem_cons.2 ⟨⟨first, List.mem_cons_self, first.modify_image id change kept⟩,
        fun child member => ?_⟩
      obtain ⟨before, inside, same⟩ := inductionHypothesis child member
      exact ⟨before, List.mem_cons_of_mem _ inside, same⟩
  obtain ⟨head, kind, effects, children⟩ := node
  intro child member
  unfold modify at member
  split at member
  · exact ⟨child, member, rfl⟩
  · exact among children child member

end Node

/-- Looking up the parents of layers leaves what they show. -/
theorem Tree.settle_child (tree : Tree S P) (ids : List Nat) :
    ∀ child ∈ (tree.settle ids).root.children,
      ∃ before ∈ tree.root.children, child.kind.image? = before.kind.image? := by
  unfold Tree.settle
  generalize tree.layers = layers
  induction ids generalizing tree with
  | nil => exact fun child member => ⟨child, member, rfl⟩
  | cons id rest inductionHypothesis =>
    intro child member
    obtain ⟨between, inside, same⟩ := inductionHypothesis _ child member
    obtain ⟨before, first, still⟩ := Node.modify_child tree.root id _ (fun kind => by
      cases kind with
      | layer content => exact Parenting.settled_image layers content
      | _ => rfl) between inside
    exact ⟨before, first, same.trans still⟩

variable [Scalar S]

/-- An image that one of the layers of a document asks for. -/
def Authored (layers : List Value) (image : Picture S) : Prop :=
  ∃ fragment ∈ layers, ∃ authored : Document.Layer S,
    read? Document.Layer.decode fragment = some authored ∧
      authored.kind = LayerKind.pictureCode ∧ image.asset = authored.asset.getD ""

/-- A layer that shows an image is authored as one, with that asset. -/
theorem LayerKind.image_authored (assets : List (Document.Asset S)) (authored : Document.Layer S)
    (kind : LayerKind S) (known : LayerKind.ofDocument assets authored = some kind)
    (image : Picture S) (shown : kind.image? = some image) :
    authored.kind = pictureCode ∧ image.asset = authored.asset.getD "" := by
  unfold LayerKind.ofDocument at known
  split at known
  · cases known
    cases shown
  · split at known
    · rename_i isPicture
      cases known
      cases shown
      exact ⟨by simpa using isPicture, rfl⟩
    · cases known

namespace Build

/-- What a layer shows is settled when its head is made. -/
theorem layer_head_image (workshop : Workshop S) (fragment : Value) (next after : Nat)
    (node : Node S P) (built : layerHead workshop fragment next = some (node, after))
    (image : Picture S) (shown : node.kind.image? = some image) : Authored [fragment] image := by
  simp only [layerHead, Option.bind_eq_bind, Option.bind_eq_some_iff, Option.pure_def,
    Option.some.injEq, Prod.mk.injEq] at built
  obtain ⟨label, -, authored, readable, kind, known, rfl, -⟩ := built
  obtain ⟨isPicture, asset⟩ := LayerKind.image_authored _ authored kind known image shown
  exact ⟨fragment, List.mem_singleton_self _, authored, readable, isPicture, asset⟩

/-- The layers of the first round show images that have been authored. -/
theorem layer_heads_images (workshop : Workshop S) (layers : List Value) (next : Nat) :
    ∀ entry ∈ (layerHeads workshop layers next : List (Node S P × Value) × Nat).1,
      ∀ image, entry.1.kind.image? = some image → Authored layers image := by
  have behind : ∀ {fragment : Value} {rest : List Value} {image : Picture S},
      Authored rest image → Authored (fragment :: rest) image :=
    fun ⟨source, member, read⟩ => ⟨source, List.mem_cons_of_mem _ member, read⟩
  induction layers generalizing next with
  | nil => simp [layerHeads]
  | cons fragment rest inductionHypothesis =>
    cases built : (layerHead workshop fragment next : Option (Node S P × Nat)) with
    | none =>
      intro entry member image shown
      simp only [layerHeads, built] at member
      exact behind (inductionHypothesis next entry member image shown)
    | some made =>
      obtain ⟨layer, after⟩ := made
      intro entry member image shown
      simp only [layerHeads, built, List.mem_cons] at member
      rcases member with rfl | member
      · obtain ⟨source, same, read⟩ := layer_head_image workshop fragment next after layer built
          image shown
        exact ⟨fragment, List.mem_cons_self, List.mem_singleton.1 same ▸ read⟩
      · exact behind (inductionHypothesis after entry member image shown)

variable [Scalar P] [Widen S P]

/-- Filling in contents leaves what a layer shows. -/
theorem fill_layer_image (workshop : Workshop S) (layer : Node S P) (fragment : Value)
    (next : Nat) : (fillLayer workshop layer fragment next).1.kind.image? = layer.kind.image? := by
  unfold fillLayer
  split
  · rfl
  · obtain ⟨head, kind, effects, children⟩ := layer
    cases kind <;> rfl

/-- The layers of a scene show what its document asks for. -/
theorem document_images (workshop : Workshop S) (layers : List Value) :
    ∀ layer ∈ (document workshop layers : Node S P × Nat).1.children,
      ∀ image, layer.kind.image? = some image → Authored layers image := by
  intro layer member image shown
  let heads : List (Node S P × Value) × Nat := layerHeads workshop layers 1
  change layer ∈ mattesFirst (fillLayers workshop [] heads.1 heads.2).1.reverse at member
  obtain ⟨filled, entries⟩ := fill_layers_stages workshop heads.1 [] heads.2
  rw [mem_mattes_first, List.mem_reverse, filled, List.nil_append] at member
  obtain ⟨stage, inside, rfl⟩ := List.mem_map.1 member
  have headed : (stage.layer, stage.fragment) ∈ heads.1 := by
    rw [← entries]
    exact List.mem_map.2 ⟨stage, inside, rfl⟩
  have bare : stage.layer.kind.image? = some image :=
    (fill_layer_image workshop stage.layer _ stage.next).symm.trans shown
  exact layer_heads_images workshop layers 1 _ headed image bare

end Build

variable [Scalar P] [Widen S P] [Measure P]

namespace Node

/-- No time changes which image a node shows. -/
theorem update_image (node : Node S P) (time : S) (around : Option (Trim.Window S)) :
    (node.update time around).kind.image? = node.kind.image? := by
  obtain ⟨head, kind, effects, children⟩ := node
  cases hidden : head.hidden with
  | true => rw [update_hidden _ _ _ _ _ _ hidden]
  | false =>
    cases container : kind.isContainer with
    | true =>
      rw [update_container _ _ _ _ _ _ hidden container]
      cases kind <;> rfl
    | false =>
      rw [update_leaf _ _ _ _ _ _ hidden container]
      cases kind <;> rfl

/-- Every child of a node that has been brought to a time has been a child before. -/
theorem update_child (node : Node S P) (time : S) (around : Option (Trim.Window S)) :
    ∀ child ∈ (node.update time around).children,
      ∃ before ∈ node.children, child.kind.image? = before.kind.image? := by
  obtain ⟨head, kind, effects, children⟩ := node
  intro child member
  cases hidden : head.hidden with
  | true =>
    rw [update_hidden _ _ _ _ _ _ hidden] at member
    exact ⟨child, member, rfl⟩
  | false =>
    cases container : kind.isContainer with
    | true =>
      rw [update_container _ _ _ _ _ _ hidden container] at member
      obtain ⟨before, inside, rfl⟩ := List.mem_map.1 member
      exact ⟨before, inside, before.update_image _ _⟩
    | false =>
      rw [update_leaf _ _ _ _ _ _ hidden container] at member
      exact ⟨child, member, rfl⟩

end Node

/-- In every state of its scene the layers of a document show what the document asks for. -/
theorem Reachable.images {settings : Trim.Settings} {document : Document S} {scene : Scene S P}
    (reachable : Reachable settings document scene) :
    ∀ layer ∈ scene.tree.root.children,
      ∀ image, layer.kind.image? = some image → Authored document.layers image := by
  induction reachable with
  | loaded =>
    intro layer member image shown
    obtain ⟨before, inside, same⟩ := Node.update_child _ _ _ layer member
    exact Build.document_images _ _ before inside image (same ▸ shown)
  | updated scene frame before inductionHypothesis =>
    intro layer member image shown
    obtain ⟨earlier, inside, same⟩ := Node.update_child _ _ _ layer member
    exact inductionHypothesis earlier inside image (same ▸ shown)
  | settled scene ids before inductionHypothesis =>
    intro layer member image shown
    obtain ⟨earlier, inside, same⟩ := scene.tree.settle_child ids layer member
    exact inductionHypothesis earlier inside image (same ▸ shown)

end VectorMotion.Scene

namespace VectorMotion.Render

open Scene

variable {S P : Type}

namespace Call

/-- The image that a call tells about. -/
def image? : Call S P → Option (Picture S)
  | visit _ (.picture image) => some image
  | _ => none

/-- The images that calls tell about. -/
def images (calls : List (Call S P)) : List (Picture S) := calls.filterMap image?

/-- The images of calls stand in the order of the calls. -/
theorem images_append (first second : List (Call S P)) :
    images (first ++ second) = images first ++ images second := List.filterMap_append

/-- The images of the calls of nodes stand in the order of the nodes. -/
theorem images_flatMap (nodes : List (Node S P)) (calls : Node S P → List (Call S P)) :
    images (nodes.flatMap calls) = nodes.flatMap fun node => images (calls node) :=
  List.filterMap_flatMap

/-- Settings tell about no images. -/
theorem settings_images {calls : List (Call S P)} (set : ∀ call ∈ calls, call.IsSetting) :
    images calls = [] := by
  refine List.filterMap_eq_nil_iff.2 fun call member => ?_
  obtain ⟨head, told, rfl, setting⟩ := set call member
  cases told with
  | picture image => cases setting
  | _ => rfl

/-- Applying a trim shows no image. -/
theorem apply_trim_images (head : Head) (trim : Option (Trim.Window S)) :
    images (applyTrim head trim : List (Call S P)) = [] := by
  cases trim with
  | none => rfl
  | some window =>
    cases together : window.simultaneous <;> simp [applyTrim, together, images, image?]

/-- Nor do the calls around contents that are trimmed. -/
theorem trimmed_images (trim : Option (Trim.Window S)) (calls : List (Call S P)) :
    images (trimmed trim calls) = images calls := by
  have entered : images (enterTrim trim : List (Call S P)) = [] := by cases trim <;> rfl
  simp only [trimmed, images_append, entered]
  exact List.append_nil _

/-- Neither does a pair of brackets. -/
theorem bracket_images (calls : List (Call S P)) :
    images ([save] ++ calls ++ [restore]) = images calls := by
  rw [images_append, images_append]
  exact List.append_nil _

variable [Scalar S] [Scalar P] [Widen S P] [Measure P]

/-- The calls for contents tell about no images. -/
theorem content_images (followed : List (LayerEntry S)) {node : Node S P}
    (fits : node.Fits .content) : images (ofNode followed node) = [] := by
  induction node, fits using Node.Fits.content_induction with
  | group head content children childrenFit inductionHypothesis =>
    cases hidden : head.hidden with
    | true =>
      rw [of_hidden _ _ _ _ _ hidden]
      rfl
    | false =>
      have inside : images (children.flatMap (ofNode followed)) = [] := by
        rw [images_flatMap]
        exact List.flatMap_eq_nil_iff.2 inductionHypothesis
      have applied : images (if content.ownsTrim then applyTrim head content.trim else [] :
          List (Call S P)) = [] := by
        split
        · exact apply_trim_images head content.trim
        · rfl
      rw [of_group _ _ _ _ _ hidden, bracket_images, trimmed_images, images_append, images_append,
        inside, applied]
      rfl
  | plain head kind plain coherent =>
    cases hidden : head.hidden with
    | true =>
      rw [of_hidden _ _ _ _ _ hidden]
      rfl
    | false =>
      rw [of_leaf _ _ _ _ _ hidden (kind.is_plain_iff.1 plain).2]
      cases kind <;> rfl

/-- The calls for a layer tell about no image but its own. -/
theorem layer_images (followed : List (LayerEntry S)) {node : Node S P}
    (fits : node.Fits .layer) : images (ofNode followed node) ⊆ node.kind.image?.toList := by
  cases fits with
  | layer head content effects children effectsFit childrenFit =>
    cases hidden : head.hidden with
    | true =>
      rw [of_hidden _ _ _ _ _ hidden]
      exact List.nil_subset _
    | false =>
      cases shown : content.active with
      | false =>
        rw [of_unseen _ _ _ _ _ shown]
        exact List.nil_subset _
      | true =>
        have before : images (effects.flatMap (ofNode followed)) = [] := by
          rw [images_flatMap]
          exact List.flatMap_eq_nil_iff.2 fun effect member =>
            settings_images (effects_set followed (effectsFit effect member))
        have led := settings_images (parents_set (P := P) followed head content)
        have placed : images [(visit head (ofLayerKind content.kind) : Call S P),
            visit head (.transform content.transform)] = content.kind.image?.toList := by
          cases content.kind <;> rfl
        have inside : images (children.flatMap (ofNode followed)) = [] := by
          rw [images_flatMap]
          exact List.flatMap_eq_nil_iff.2 fun child member =>
            content_images followed (childrenFit child member)
        rw [of_layer _ _ _ _ _ hidden shown, bracket_images]
        simp only [images_append, trimmed_images, before, led, placed, inside, apply_trim_images,
          List.append_nil, List.nil_append]
        exact List.Subset.refl _

/-- Every image that is told about when a scene is drawn is one that the document asks for. -/
theorem scene_images {settings : Trim.Settings} {document : Document S} {scene : Scene S P}
    (reachable : Reachable settings document scene) :
    ∀ image ∈ images scene.calls, Authored document.layers image := by
  have fits := reachable.fits
  have authored := reachable.images
  unfold Scene.calls ofRoot
  generalize Parenting.entries _ = followed
  generalize scene.tree.root = root at fits authored
  cases fits with
  | root head layers visible layersFit =>
    intro image member
    rw [of_root _ _ _ _ visible, bracket_images, images_flatMap] at member
    obtain ⟨layer, inside, told⟩ := List.mem_flatMap.1 member
    have own := layer_images followed (layersFit layer inside) told
    exact authored layer inside image (Option.mem_toList.1 own)

end Call

/-- The image that an element is. -/
def Element.picture? : Element S P → Option (Picture S)
  | .outline .. => none
  | .picture image _ _ => some image

namespace Canvas

/-- The images of a drawing. -/
def pictures (canvas : Canvas S P) : List (Picture S) :=
  canvas.elements.filterMap Element.picture?

/-- The images that a canvas has been told about: those in their places, and the one whose place is
not known yet. -/
def told (canvas : Canvas S P) : List (Picture S) := canvas.pictures ++ canvas.picture.toList

/-- Placing a picture leaves what the canvas has been told. -/
theorem place_told (canvas : Canvas S P) : canvas.placePicture.told = canvas.told := by
  unfold placePicture
  split
  · rename_i image waiting
    simp [told, pictures, waiting, Element.picture?]
  · rfl

section Answers

variable [Scalar S] [Scalar P] [Widen S P]

/-- So does drawing a path. -/
theorem draw_told (canvas : Canvas S P) (path : Path P) :
    (canvas.draw path).told = canvas.told := by
  have painted : (canvas.brush.paint path).filterMap Element.picture? = [] := by
    refine List.filterMap_eq_nil_iff.2 fun element member => ?_
    simp only [Brush.paint, List.mem_flatMap, List.mem_map] at member
    obtain ⟨_, -, paint, -, rfl⟩ := member
    rfl
  unfold draw
  split
  · rfl
  · split
    · rfl
    · simp [told, pictures, painted]

variable [Measure P]

/-- So does applying a trim. -/
theorem apply_trim_told (canvas : Canvas S P) (window : Trim.Window S) :
    (canvas.applyTrim window).told = canvas.told := by
  have left (shapes : List (Queued S P)) (paths : List (Path P)) :
      (List.zipWith Queued.paint shapes paths).flatten.filterMap Element.picture? = [] := by
    induction shapes generalizing paths with
    | nil => rfl
    | cons shape rest inductionHypothesis =>
      cases paths with
      | nil => rfl
      | cons path others =>
        have own : (shape.paint path).filterMap Element.picture? = [] := by
          unfold Queued.paint
          split
          · rfl
          · exact List.filterMap_eq_nil_iff.2 (List.forall_mem_map.2 fun _ _ => rfl)
        rw [List.zipWith_cons_cons, List.flatten_cons, List.filterMap_append, own,
          inductionHypothesis others]
        rfl
  simp [applyTrim, told, pictures, left]

/-- A canvas is told about images one by one, and a new one takes the place of one that still
waits for its place. -/
theorem answer_told (canvas : Canvas S P) (call : Call S P) :
    (canvas.answer call).told ⊆ canvas.told ++ call.image?.toList := by
  have kept : ∀ {answered : Canvas S P}, answered.told = canvas.told →
      answered.told ⊆ canvas.told ++ call.image?.toList :=
    fun same => same ▸ List.subset_append_left _ _
  cases call with
  | visit head visit =>
    cases visit with
    | picture image =>
      intro shown member
      have either : shown ∈ canvas.pictures ∨ shown = image := by
        simpa [answer, Canvas.visit, told, pictures] using member
      rcases either with before | rfl
      · exact List.mem_append_left _ (List.mem_append_left _ before)
      · exact List.mem_append_right _ List.mem_cons_self
    | transform transform => exact kept (place_told _)
    | shape shape => exact kept (draw_told canvas shape.path)
    | trim window => exact kept (apply_trim_told canvas window)
    | _ => exact kept rfl
  | restore => exact kept (by cases saved : canvas.saved <;> simp [answer, saved, told, pictures])
  | _ => exact kept rfl

/-- The images of a drawing are among those that its calls tell about. -/
theorem of_calls_told (calls : List (Call S P)) : (ofCalls calls).pictures ⊆ Call.images calls := by
  have run (canvas : Canvas S P) :
      (canvas.answerAll calls).told ⊆ canvas.told ++ Call.images calls := by
    induction calls generalizing canvas with
    | nil => exact List.subset_append_left _ _
    | cons call rest inductionHypothesis =>
      intro image member
      have first : Call.images (call :: rest) = call.image?.toList ++ Call.images rest :=
        Call.images_append [call] rest
      rw [first, ← List.append_assoc]
      have shown := inductionHypothesis (canvas.answer call) member
      rcases List.mem_append.1 shown with before | behind
      · exact List.mem_append_left _ (answer_told canvas call before)
      · exact List.mem_append_right _ behind
  intro image member
  have told := run empty (List.mem_append_left _ member)
  simpa [empty, Canvas.told, pictures] using told

end Answers

end Canvas

/-- The images of a drawing are images that the layers of the document ask for. -/
theorem drawing_images [Scalar S] [Scalar P] [Widen S P] [Measure P] {settings : Trim.Settings}
    {document : Document S} {scene : Scene S P} (reachable : Reachable settings document scene) :
    ∀ image ∈ (Canvas.ofCalls scene.calls).pictures, Authored document.layers image :=
  fun image member => Call.scene_images reachable image (Canvas.of_calls_told _ member)

end VectorMotion.Render
