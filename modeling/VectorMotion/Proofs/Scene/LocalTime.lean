import Mathlib.Data.List.Basic
import VectorMotion.Proofs.Scene.Inheritance

/-!
# One time for each layer

Every kind of node has attributes of its own, and each attribute is a track. Here the tracks of a
node are gathered in one list, so that what an update does to a node can be said once for all kinds:
it brings every track of the node to one time. Below the root that time is the local time of the
layer, for the layer itself, for its effects and for its contents, at any depth.

The keyframes of a node are those that its document has given it. What happens to a scene only moves
the tracks along, which is stated of the sheets of its nodes: what is known about a node apart from
the time it was last brought to.
-/

namespace VectorMotion.Scene

/-- Something for each sort of value that an attribute can have. -/
inductive Quantity (S : Type) (F : Type → Type) where
  | number (content : F S)
  | point (content : F (Vec2 S))
  | color (content : F (Rgba S))
  | table (content : F (List S))
  | outline (content : F (Document.Vertices S))

variable {S P : Type} [Scalar S]

/-- Something else for the same sort of value. -/
def Quantity.map {F G : Type → Type} (change : {V : Type} → [Blend S V] → F V → G V) :
    Quantity S F → Quantity S G
  | number content => .number (change content)
  | point content => .point (change content)
  | color content => .color (change content)
  | table content => .table (change content)
  | outline content => .outline (change content)

/-- The track of an attribute. -/
abbrev AnyTrack (S : Type) := Quantity S (Track S)

namespace AnyTrack

/-- The attribute brought to a time. -/
def update (time : S) : AnyTrack S → AnyTrack S := Quantity.map fun track => track.update time

/-- The value of an attribute at the time it was last brought to. -/
def value : AnyTrack S → Quantity S Id := Quantity.map fun track => track.value

/-- The value of an attribute at a time. -/
def valueAt (time : S) : AnyTrack S → Quantity S Id := Quantity.map fun track => track.valueAt time

/-- Of two evaluations of a track only the later counts. -/
@[simp] theorem update_update (track : AnyTrack S) (earlier later : S) :
    (track.update earlier).update later = track.update later := by
  cases track <;> simp [update, Quantity.map]

/-- An attribute that is brought to a time has its value then. -/
@[simp] theorem update_value (track : AnyTrack S) (time : S) :
    (track.update time).value = track.valueAt time := by
  cases track <;> simp [update, value, valueAt, Quantity.map, Track.update_value]

end AnyTrack

/-- The attributes of a position. -/
def Placement.tracks : Placement S → List (AnyTrack S)
  | unified track => [.point track]
  | split x y => [.number x, .number y]

/-- The attributes of a transform. -/
def Transform.tracks (transform : Transform S) : List (AnyTrack S) :=
  .point transform.anchor :: transform.placement.tracks ++
    [.point transform.percentScale, .number transform.rotation, .number transform.percentOpacity]

/-- The attributes of a contour. -/
def Contour.tracks : Contour S → List (AnyTrack S)
  | rectangle position size roundness => [.point position, .point size, .number roundness]
  | ellipse position size => [.point position, .point size]
  | circle position radius => [.point position, .number radius]
  | freeForm vertices => [.outline vertices]

/-- The attributes of a node. Groups, groups of effects and the root have none. -/
def Kind.tracks : Kind S P → List (AnyTrack S)
  | layer content => content.transform.tracks
  | transform content =>
    content.transform.tracks ++ [.number content.skew, .number content.skewAxis]
  | shape content => content.contour.tracks
  | fill content => [.color content.color, .number content.percentOpacity]
  | gradient content =>
    [.point content.start, .point content.finish, .number content.highlightLength,
      .number content.highlightAngle, .number content.percentOpacity, .table content.table]
  | stroke content =>
    .color content.color :: .number content.percentOpacity :: .number content.width ::
      content.dashes.map fun entry => .number entry.length
  | trim content => [.number content.start, .number content.finish, .number content.offset]
  | repeater content =>
    .number content.copies :: .number content.offset :: content.step.transform.tracks ++
      [.number content.step.startOpacity, .number content.step.endOpacity]
  | slider content => [.number content.value]
  | flood content => [.color content.color, .number content.fraction]
  | root | group _ | effectGroup => []

/-- When a layer is shown, and where its own time begins. -/
structure Timing (S : Type) where
  inPoint : S
  outPoint : S
  startTime : S

/-- The timing of a layer. -/
def Layer.timing (layer : Layer S) : Timing S := ⟨layer.inPoint, layer.outPoint, layer.startTime⟩

/-- Evaluating a placement evaluates each of its tracks. -/
@[simp] theorem Placement.update_tracks (placement : Placement S) (time : S) :
    (placement.update time).tracks = placement.tracks.map (AnyTrack.update time) := by
  cases placement <;> rfl

/-- Evaluating a transform evaluates each of its tracks. -/
@[simp] theorem Transform.update_tracks (transform : Transform S) (time : S) :
    (transform.update time).tracks = transform.tracks.map (AnyTrack.update time) := by
  simp [Transform.update, tracks, AnyTrack.update, Quantity.map]

/-- Evaluating a contour evaluates each of its tracks. -/
@[simp] theorem Contour.update_tracks (contour : Contour S) (time : S) :
    (contour.update time).tracks = contour.tracks.map (AnyTrack.update time) := by
  cases contour <;> rfl

namespace Kind

/-- A container that is brought to a time brings its attributes to its own time. -/
theorem container_tracks (kind : Kind S P) (time : S) (trim : Option (Trim.Window S)) (owns : Bool)
    (container : kind.isContainer = true) :
    (kind.updateContainer time trim owns).tracks =
      kind.tracks.map (AnyTrack.update (kind.childTime time)) := by
  cases kind with
  | layer content => exact content.transform.update_tracks (content.localTime time)
  | root | group | effectGroup => rfl
  | _ => cases container

/-- Any other node brings its attributes to the time of its container. -/
theorem leaf_tracks [Scalar P] [Widen S P] [Measure P] (kind : Kind S P) (time : S) (around : Option (Trim.Window S))
    (plain : kind.isContainer = false) :
    (kind.updateLeaf time around).tracks = kind.tracks.map (AnyTrack.update time) := by
  cases kind with
  | root | layer | group | effectGroup => cases plain
  | transform content =>
    simp [updateLeaf, tracks, GroupTransform.update, GroupTransform.sheared, AnyTrack.update,
      Quantity.map]
  | shape content => exact content.contour.update_tracks time
  | stroke content =>
    simp [updateLeaf, tracks, Stroke.update, AnyTrack.update, Quantity.map, Function.comp_def]
  | repeater content =>
    simp [updateLeaf, tracks, Repeater.update, Repeater.faded, Step.fadeOver, Step.update,
      AnyTrack.update, Quantity.map]
  | _ => rfl

/-- Only a layer has a time of its own. -/
theorem child_time_outside (kind : Kind S P) (time : S) (outside : kind.layer? = none) :
    kind.childTime time = time := by
  cases kind with
  | layer content => cases outside
  | _ => rfl

end Kind

namespace Node

/-- What is known about a node apart from the time it was last brought to: its head, its timing if it
is a layer, and its attributes as they are at every time. -/
structure Sheet (S : Type) where
  head : Head
  timing : Option (Timing S)
  tracks : S → List (AnyTrack S)

/-- The sheet of a node. -/
def sheet (node : Node S P) : Sheet S :=
  { head := node.head
    timing := node.layer?.map Layer.timing
    tracks := fun time => node.kind.tracks.map (AnyTrack.update time) }

/-- The sheets of a node and of everything below it. -/
def sheets (node : Node S P) : List (Sheet S) := node.listing.map sheet

/-- The sheets of a node are its own and then those of its parts, effects first. -/
theorem sheets_parts (head : Head) (kind : Kind S P) (effects children : List (Node S P)) :
    (mk head kind effects children).sheets =
      (mk head kind effects children).sheet :: (effects.flatMap sheets ++ children.flatMap sheets) := by
  rw [sheets, listing, List.map_cons, List.map_append, listingAll_flatMap, listingAll_flatMap,
    List.map_flatMap, List.map_flatMap]
  rfl

/-- A node keeps its sheets if its own is kept, and those of all its effects and children. -/
theorem sheets_rebuilt {head : Head} {kind : Kind S P} {effects children : List (Node S P)}
    (other : Kind S P) (onEffects onChildren : Node S P → Node S P)
    (own : (mk head other (effects.map onEffects) (children.map onChildren)).sheet =
      (mk head kind effects children).sheet)
    (effectsKept : ∀ effect ∈ effects, (onEffects effect).sheets = effect.sheets)
    (childrenKept : ∀ child ∈ children, (onChildren child).sheets = child.sheets) :
    (mk head other (effects.map onEffects) (children.map onChildren)).sheets =
      (mk head kind effects children).sheets := by
  have parts (nodes : List (Node S P)) (change : Node S P → Node S P)
      (kept : ∀ node ∈ nodes, (change node).sheets = node.sheets) :
      (nodes.map change).flatMap sheets = nodes.flatMap sheets := by
    rw [List.flatMap_map]
    exact List.flatMap_congr fun node member => kept node member
  rw [sheets_parts, sheets_parts, own, parts effects onEffects effectsKept,
    parts children onChildren childrenKept]

/-- Changing a node with a number keeps all sheets if the change does. -/
theorem sheets_modify (node : Node S P) (id : Nat) (change : Node S P → Node S P)
    (kept : ∀ node : Node S P, (change node).sheets = node.sheets) :
    (node.modify id change).sheets = node.sheets := by
  induction node with
  | mk head kind effects children effectsKept childrenKept =>
    simp only [modify, modifyAll_map]
    split
    · exact kept _
    · exact sheets_rebuilt kind _ _ rfl effectsKept childrenKept

end Node

/-- Looking up the parents of layers keeps all sheets. -/
theorem Tree.settle_sheets (tree : Tree S P) (ids : List Nat) :
    (tree.settle ids).root.sheets = tree.root.sheets := by
  unfold Tree.settle
  generalize tree.layers = layers
  induction ids generalizing tree with
  | nil => rfl
  | cons id rest inductionHypothesis =>
    refine (inductionHypothesis _).trans (Node.sheets_modify _ _ _ fun node => ?_)
    obtain ⟨head, kind, effects, children⟩ := node
    rw [Node.mapKind, Node.sheets_parts, Node.sheets_parts]
    congr 1
    cases kind with
    | layer layer =>
      simp only [Node.sheet, Node.layer?, Node.kind, Node.head, Kind.layer?, Kind.tracks,
        Parenting.settled]
      split <;> rfl
    | _ => rfl

variable [Scalar P] [Widen S P] [Measure P]

namespace Node

/-- All attributes of a node that is brought to a time are brought to one time: that of its
contents. -/
theorem update_tracks (node : Node S P) (time : S) (around : Option (Trim.Window S))
    (shown : node.head.hidden = false) :
    (node.update time around).kind.tracks =
      node.kind.tracks.map (AnyTrack.update (node.kind.childTime time)) := by
  obtain ⟨head, kind, effects, children⟩ := node
  change head.hidden = false at shown
  cases container : kind.isContainer with
  | true =>
    rw [update_container _ _ _ _ _ _ shown container]
    exact kind.container_tracks _ _ _ container
  | false =>
    have sameTime : kind.childTime time = time := by
      cases kind with
      | layer => cases container
      | _ => rfl
    rw [update_leaf _ _ _ _ _ _ shown container]
    exact (kind.leaf_tracks _ _ container).trans (by rw [Node.kind, sameTime])

/-- Bringing a node to a time keeps its sheet. -/
theorem sheet_update (node : Node S P) (time : S) (around : Option (Trim.Window S)) :
    (node.update time around).sheet = node.sheet := by
  cases shown : node.head.hidden with
  | true =>
    obtain ⟨head, kind, effects, children⟩ := node
    exact congrArg sheet (update_hidden time around head kind effects children shown)
  | false =>
    have tracks (later : S) : (node.update time around).kind.tracks.map (AnyTrack.update later) =
        node.kind.tracks.map (AnyTrack.update later) := by
      rw [update_tracks node time around shown, List.map_map]
      exact List.map_congr_left fun track _ => track.update_update _ _
    obtain ⟨head, kind, effects, children⟩ := node
    change head.hidden = false at shown
    simp only [sheet, tracks, Sheet.mk.injEq, and_true]
    cases container : kind.isContainer with
    | true =>
      rw [update_container _ _ _ _ _ _ shown container]
      cases kind <;> exact ⟨rfl, rfl⟩
    | false =>
      rw [update_leaf _ _ _ _ _ _ shown container]
      cases kind <;> exact ⟨rfl, rfl⟩

/-- Bringing a tree to a time keeps all sheets in it. -/
theorem sheets_update (node : Node S P) (time : S) (around : Option (Trim.Window S)) :
    (node.update time around).sheets = node.sheets := by
  induction node generalizing time around with
  | mk head kind effects children effectsKept childrenKept =>
    have own := (mk head kind effects children).sheet_update time around
    cases hidden : head.hidden with
    | true => rw [update_hidden _ _ _ _ _ _ hidden]
    | false =>
      cases container : kind.isContainer with
      | true =>
        rw [update_container _ _ _ _ _ _ hidden container] at own ⊢
        exact sheets_rebuilt _ _ _ own (fun effect member => effectsKept effect member _ _)
          fun child member => childrenKept child member _ _
      | false =>
        rw [update_leaf _ _ _ _ _ _ hidden container] at own ⊢
        rw [sheets_parts, sheets_parts, own]

/-- Below contents or effects that are at a time everything that can be seen is at that time.

The induction follows the way down. None of the containers that it passes is a layer, so each of them
hands on its own time. -/
theorem Way.inside_at_time {time : S} {around : Option (Trim.Window S)} {top node : Node S P}
    {path : List (Node S P)} (way : Way top path node)
    (fits : top.Fits .content ∨ top.Fits .effect) (current : top.AtTime time around)
    (shown : ∀ passed ∈ path, passed.head.hidden = false) :
    node.layer? = none ∧ ∃ inForce, node.AtTime time inForce := by
  induction way generalizing around with
  | here node =>
    refine ⟨?_, around, current⟩
    obtain ⟨head, kind, effects, children⟩ := node
    have place : kind.place = .content ∨ kind.place = .effect :=
      fits.imp (fun content => content.kind_place) (fun effect => effect.kind_place)
    cases kind with
    | layer => simp [Kind.place] at place
    | _ => rfl
  | child top next node path member rest inductionHypothesis =>
    have showing : ∀ passed ∈ path, passed.head.hidden = false :=
      fun passed inside => shown passed (List.mem_cons_of_mem _ inside)
    rcases fits with content | effect
    · cases content with
      | plain head kind plain coherent => simp [Node.children] at member
      | group head group children childrenFit =>
        have visible : head.hidden = false := shown _ List.mem_cons_self
        obtain ⟨-, -, childrenCurrent⟩ := container_at_time _ _ _ _ _ _ visible rfl current
        exact inductionHypothesis (.inl (childrenFit next member)) (childrenCurrent next member)
          showing
    · cases effect with
      | control head kind control => simp [Node.children] at member
      | effectGroup head children childrenFit =>
        have visible : head.hidden = false := shown _ List.mem_cons_self
        obtain ⟨-, -, childrenCurrent⟩ := container_at_time _ _ _ _ _ _ visible rfl current
        exact inductionHypothesis (.inr (childrenFit next member)) (childrenCurrent next member)
          showing
  | effect top next node path member rest inductionHypothesis =>
    rcases fits with content | effect
    · cases content <;> simp [Node.effects] at member
    · cases effect <;> simp [Node.effects] at member

/-- What can be seen in a shown layer that is at a frame has all its attributes at the local time of
the layer: the layer itself, and whatever is below it. -/
theorem Way.layer_tracks {frame : S} {around : Option (Trim.Window S)} {layerNode node : Node S P}
    {path : List (Node S P)} {layer : Layer S} (way : Way layerNode path node)
    (isLayer : layerNode.kind = .layer layer) (fits : layerNode.Fits .layer)
    (current : layerNode.AtTime frame around)
    (shown : ∀ passed ∈ path ++ [node], passed.head.hidden = false) :
    node.kind.tracks.map (AnyTrack.update (layer.localTime frame)) = node.kind.tracks := by
  have nodeShown : node.head.hidden = false := shown node (by simp)
  -- A node that is at a time is what the update makes of it, so its tracks are at its own time.
  have settled {time : S} {inForce : Option (Trim.Window S)} (atTime : node.AtTime time inForce) :
      node.kind.tracks.map (AnyTrack.update (node.kind.childTime time)) = node.kind.tracks := by
    rw [← update_tracks node time inForce nodeShown, atTime]
  have inside {top : Node S P} {rest : List (Node S P)} {inForce : Option (Trim.Window S)}
      (below : Way top rest node) (stands : top.Fits .content ∨ top.Fits .effect)
      (atTime : top.AtTime (layer.localTime frame) inForce)
      (showing : ∀ passed ∈ rest, passed.head.hidden = false) :
      node.kind.tracks.map (AnyTrack.update (layer.localTime frame)) = node.kind.tracks := by
    obtain ⟨outside, inForce, there⟩ := below.inside_at_time stands atTime showing
    rw [← node.kind.child_time_outside (layer.localTime frame) outside]
    exact settled there
  cases way with
  | here =>
    have own := settled current
    rwa [isLayer, Kind.childTime, ← isLayer] at own
  | child top next node rest member below =>
    cases fits with
    | layer head content effects children effectsFit childrenFit =>
      obtain rfl : content = layer := Kind.layer.inj isLayer
      have visible : head.hidden = false :=
        shown (.mk head (.layer content) effects children) (by simp)
      obtain ⟨-, -, childrenCurrent⟩ := container_at_time _ _ _ _ _ _ visible rfl current
      exact inside below (.inl (childrenFit next member)) (childrenCurrent next member)
        fun passed within => shown passed (by simp [within])
  | effect top next node rest member below =>
    cases fits with
    | layer head content effects children effectsFit childrenFit =>
      obtain rfl : content = layer := Kind.layer.inj isLayer
      have visible : head.hidden = false :=
        shown (.mk head (.layer content) effects children) (by simp)
      obtain ⟨-, effectsCurrent, -⟩ := container_at_time _ _ _ _ _ _ visible rfl current
      exact inside below (.inr (effectsFit next member)) (effectsCurrent next member)
        fun passed within => shown passed (by simp [within])

end Node

/-- The nodes of a scene are those that its document has been built into, in whatever state it is. -/
theorem Reachable.sheets {settings : Trim.Settings} {document : Document S} {scene : Scene S P}
    (reachable : Reachable settings document scene) :
    scene.tree.root.sheets = (Tree.ofDocument settings document : Tree S P).root.sheets := by
  induction reachable with
  | loaded => exact Node.sheets_update _ _ _
  | updated scene frame before inductionHypothesis =>
    exact (Node.sheets_update _ _ _).trans inductionHypothesis
  | settled scene ids before inductionHypothesis =>
    exact (Tree.settle_sheets _ _).trans inductionHypothesis

/-- After an update, whatever can be seen in a shown layer, the layer itself among it, holds in each of
its attributes the value at the local time of that layer, of the keyframes that the document has given
the node, and the layer has the timing that the document has given it. What a node derives
from its attributes is what the values give: the outline of a shape in its direction, cut once at
most, the stops of a gradient, the shear of a group, the opacities of the copies of a repeater and the
window of a trim. The layer is active exactly when the frame itself, and not the
local time, is between its in point and its out point. -/
theorem attributes_at_local_time (settings : Trim.Settings) (document : Document S)
    (scene : Scene S P) (reachable : Reachable settings document scene) (frame : S)
    (path : List (Node S P)) (node : Node S P)
    (way : Node.Way (scene.update frame).tree.root path node) (below : path ≠ [])
    (shown : ∀ passed ∈ path ++ [node], passed.head.hidden = false) :
    ∃ root layerNode layer rest, path ++ [node] = root :: layerNode :: rest ∧
      layerNode.kind = .layer layer ∧
      (∃ authored ∈ (Tree.ofDocument settings document : Tree S P).root.listing,
        authored.head = layerNode.head ∧ authored.layer?.map Layer.timing = some layer.timing) ∧
      (∃ authored ∈ (Tree.ofDocument settings document : Tree S P).root.listing,
        authored.head = node.head ∧
        node.kind.tracks.map AnyTrack.value =
          authored.kind.tracks.map (AnyTrack.valueAt (frame - layer.startTime))) ∧
      node.kind.Coherent ∧
      (layer.active = true ↔ layer.inPoint ≤ frame ∧ frame ≤ layer.outPoint) := by
  have updated := reachable.updated scene frame
  have fits : (scene.update frame).tree.root.Fits .scene := updated.fits
  have current : (scene.update frame).tree.root.AtTime frame none := Node.update_at_time _ _ _
  have coherent : node.kind.Coherent := fits.coherent node way.listed
  have described (listed : Node S P) (inside : listed ∈ (scene.update frame).tree.root.listing) :
      ∃ authored ∈ (Tree.ofDocument settings document : Tree S P).root.listing,
        authored.sheet = listed.sheet := by
    have inScene : listed.sheet ∈ (scene.update frame).tree.root.sheets :=
      List.mem_map_of_mem inside
    rw [updated.sheets] at inScene
    exact List.mem_map.mp inScene
  obtain ⟨authored, isAuthored, same⟩ := described node way.listed
  generalize (scene.update frame).tree.root = root at way fits current described
  cases way with
  | here => exact absurd rfl below
  | effect top next node path member rest =>
    cases fits
    simp [Node.effects] at member
  | child top layerNode node path member rest =>
    cases fits with
    | root head layers visible layersFit =>
      obtain ⟨-, -, layersCurrent⟩ := Node.container_at_time _ _ _ _ _ _ visible rfl current
      obtain ⟨layer, isLayer⟩ : ∃ layer, layerNode.kind = .layer layer := by
        cases layersFit layerNode member with
        | layer head content => exact ⟨content, rfl⟩
      have showing : ∀ passed ∈ path ++ [node], passed.head.hidden = false :=
        fun passed inside => shown passed (List.mem_cons_of_mem _ inside)
      obtain ⟨others, starts⟩ : ∃ others, path ++ [node] = layerNode :: others := by
        cases rest <;> exact ⟨_, rfl⟩
      have layerShown : layerNode.head.hidden = false := showing layerNode (by simp [starts])
      have atTime : layerNode.AtTime frame _ := layersCurrent layerNode member
      obtain ⟨described, isDescribed, sameLayer⟩ := described layerNode
        (Node.Way.child _ _ _ _ member (.here layerNode)).listed
      have timing : described.layer?.map Layer.timing = some layer.timing := by
        rw [show described.layer?.map Layer.timing = layerNode.layer?.map Layer.timing from
          congrArg Node.Sheet.timing sameLayer, Node.layer?, isLayer]
        rfl
      refine ⟨_, layerNode, layer, others, congrArg _ starts, isLayer,
        ⟨described, isDescribed, congrArg Node.Sheet.head sameLayer, timing⟩, ⟨authored, isAuthored, congrArg Node.Sheet.head same, ?_⟩, coherent, ?_⟩
      · have tracks := congrFun (congrArg Node.Sheet.tracks same) (layer.localTime frame)
        have settled := rest.layer_tracks isLayer (layersFit layerNode member) atTime showing
        calc node.kind.tracks.map AnyTrack.value
            = (authored.kind.tracks.map (AnyTrack.update (layer.localTime frame))).map
                AnyTrack.value := congrArg _ (settled.symm.trans tracks.symm)
          _ = authored.kind.tracks.map (AnyTrack.valueAt (frame - layer.startTime)) := by
              rw [List.map_map]
              exact List.map_congr_left fun track _ => track.update_value _
      · rw [(Node.layer_at_time isLayer layerShown atTime).2, Layer.shownAt]
        simp

/-- A layer whose own time begins at frame 5, with a group around an ellipse that grows. -/
def growing : Document Float32 :=
  let keyframe (time side : Nat) : Json.Value :=
    .object [("s", .list [.natural side, .natural side]), ("t", .natural time)]
  let size : Json.Value :=
    .object [("a", .natural 1), ("k", .list [keyframe 0 10, keyframe 20 50])]
  let group : Json.Value :=
    .object [("it", .list [.object [("s", size), ("ty", .text "el")]]), ("ty", .text "gr")]
  { frameRate := 30
    inPoint := 0
    outPoint := 60
    layers := [.object [("op", .natural 60), ("shapes", .list [group]), ("st", .natural 5),
      ("ty", .natural 4)]] }

/-- At frame 15 the ellipse is as large as its keyframes say for time 10. -/
theorem ellipse_ten_frames_on :
    let scene : Scene Float32 Float := Scene.ofDocument {} growing
    let root := (scene.update 15).tree.root
    ∃ layer group ellipse, Node.Way root [root, layer, group] ellipse ∧
      ellipse.kind.tracks.length = 2 ∧
      ∃ authored ∈ (Tree.ofDocument {} growing : Tree Float32 Float).root.listing,
        authored.head = ellipse.head ∧
        ellipse.kind.tracks.map AnyTrack.value =
          authored.kind.tracks.map (AnyTrack.valueAt (15 - 5)) := by
  intro scene root
  let layer := root.children.get ⟨0, by decide +kernel⟩
  let group := layer.children.get ⟨0, by decide +kernel⟩
  let ellipse := group.children.get ⟨0, by decide +kernel⟩
  have way : Node.Way root [root, layer, group] ellipse :=
    .child _ _ _ _ (List.get_mem ..) (.child _ _ _ _ (List.get_mem ..)
      (.child _ _ _ _ (List.get_mem ..) (.here _)))
  have shown : ∀ passed ∈ [root, layer, group] ++ [ellipse], passed.head.hidden = false := by
    decide +kernel
  obtain ⟨top, layerNode, content, rest, same, isLayer, -, held, -⟩ :=
    attributes_at_local_time {} growing scene .loaded 15 _ ellipse way (by simp) shown
  obtain rfl : layer = layerNode := (List.cons.inj (List.cons.inj same).2).1
  have start : layer.layer?.map Layer.startTime = some 5 := by decide +kernel
  rw [Node.layer?, isLayer] at start
  rw [show content.startTime = 5 from Option.some.inj start] at held
  exact ⟨layer, group, ellipse, way, by decide +kernel, held⟩

/-- One layer, which is hidden. -/
def unseen : Document Float32 :=
  { frameRate := 30
    inPoint := 0
    outPoint := 60
    layers := [.object [("hd", .boolean true), ("ip", .natural 0), ("nm", .text "L"),
      ("op", .natural 60), ("ty", .natural 4)]] }

/-- A hidden layer is passed over, so it is not active even between its in point and its out
point. -/
theorem hidden_layer_inactive :
    let scene : Scene Float32 Float := Scene.ofDocument {} unseen
    ∃ node ∈ (scene.update 5).tree.root.listing, ∃ layer, node.kind = .layer layer ∧
      (layer.inPoint ≤ 5 ∧ 5 ≤ layer.outPoint) ∧ layer.active = false := by
  intro scene
  let root := (scene.update 5).tree.root
  let node := root.children.get ⟨0, by decide +kernel⟩
  have way : Node.Way root [root] node := .child _ _ _ _ (List.get_mem ..) (.here _)
  have passedOver : node.layer?.map (fun layer =>
      decide (layer.inPoint ≤ 5 ∧ 5 ≤ layer.outPoint) && !layer.active) = some true := by
    decide +kernel
  cases kind : node.kind with
  | layer layer =>
    rw [Node.layer?, kind] at passedOver
    refine ⟨node, way.listed, layer, kind, ?_⟩
    simpa [Kind.layer?] using passedOver
  | _ => simp [Node.layer?, kind, Kind.layer?] at passedOver

end VectorMotion.Scene
