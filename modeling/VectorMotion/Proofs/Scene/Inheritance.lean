import VectorMotion.Curve.ArcLength
import VectorMotion.Proofs.Scene.History
import VectorMotion.Scalar.Floating

/-!
# Inherited trims

A trim acts on all that is drawn in its container, at any depth. The trim in force for a shape is
made of the visible trims of all containers around it, from the layer inward, each at the local time
of the layer, and each taken for a part of what the ones before it have left. A group and a layer
hold the trim in force for their contents, and a group knows whether it adds to it.

The statements are about a tree that is at a frame, however it got there. A way from the root to a
node lists the containers that the trims are gathered from.
-/

namespace VectorMotion.Scene

variable {S P : Type} [Scalar S]

/-- What windows make of each other: the first, into which each later one is taken in turn. -/
def composed : List (Trim.Window S) → Option (Trim.Window S)
  | [] => none
  | first :: rest => some (rest.foldl Trim.Window.within first)

/-- The window of a trim at a time, from the values of its tracks at that time. -/
def TrimPath.windowAt (trim : TrimPath S) (time : S) : Trim.Window S :=
  { name := trim.window.name
    start := trim.start.valueAt time
    finish := trim.finish.valueAt time
    offset := trim.offset.valueAt time
    mode := trim.window.mode }

namespace Node

/-- The trim that a node is, unless it is hidden. -/
def visibleTrim? (node : Node S P) : Option (TrimPath S) :=
  match node.kind with
  | .trim trim => if node.head.hidden then none else some trim
  | _ => none

/-- The visible trims among the children, in the order of drawing. -/
def visibleTrims (node : Node S P) : List (TrimPath S) := node.children.filterMap visibleTrim?

/-- The trim that the visible trims of some containers make at a time, outer containers first. -/
def trimThrough (time : S) (containers : List (Node S P)) : Option (Trim.Window S) :=
  composed (containers.flatMap fun container => container.visibleTrims.map (·.windowAt time))

/-- The windows that an update gathers are those of the visible trims. -/
theorem windows_visible (time : S) (node : Node S P) :
    windowsAt time node.children = node.visibleTrims.map (·.windowAt time) := by
  have window (trim : TrimPath S) : (trim.update time).window = trim.windowAt time := by
    simp [TrimPath.update, TrimPath.framed, TrimPath.windowAt, Track.update_value]
  rw [visibleTrims, List.map_filterMap, windowsAt]
  congr 1
  funext child
  obtain ⟨head, kind, effects, children⟩ := child
  cases kind with
  | trim trim =>
    cases hidden : head.hidden <;>
      simp [windowAt?, visibleTrim?, Node.kind, Node.head, hidden, window]
  | _ => rfl

/-- A trim that is in force takes in each window that it meets. -/
theorem meet_all_some (current : Trim.Window S) (windows : List (Trim.Window S)) :
    meetAll (some current) windows = some (windows.foldl Trim.Window.within current) := by
  induction windows generalizing current with
  | nil => rfl
  | cons window rest inductionHypothesis => exact inductionHypothesis (current.within window)

/-- Where no trim is in force, windows are composed in order. -/
theorem meet_all_composed (windows : List (Trim.Window S)) :
    meetAll none windows = composed windows := by
  cases windows with
  | nil => rfl
  | cons first rest => exact meet_all_some first rest

/-- No trim is in force behind some windows only if there was none before, and there are none. -/
theorem meet_all_none (around : Option (Trim.Window S)) (windows : List (Trim.Window S)) :
    meetAll around windows = none ↔ around = none ∧ windows = [] := by
  cases around with
  | some current => simp [meet_all_some]
  | none => cases windows <;> simp [meet_all_composed, composed]

/-- Windows met one group after the other. -/
theorem meet_all_append (around : Option (Trim.Window S)) (outer inner : List (Trim.Window S)) :
    meetAll (meetAll around outer) inner = meetAll around (outer ++ inner) :=
  (List.foldl_append ..).symm

/-- The trim of some containers is what the windows in them leave when nothing is around them. -/
theorem trim_through_met (time : S) (containers : List (Node S P)) :
    trimThrough time containers =
      meetAll none (containers.flatMap fun container => windowsAt time container.children) := by
  simp only [trimThrough, meet_all_composed, windows_visible]

/-- One more container inside the others meets their trim with its own windows. -/
theorem trim_through_inner (time : S) (containers : List (Node S P)) (inner : Node S P) :
    trimThrough time (containers ++ [inner]) =
      meetAll (trimThrough time containers) (windowsAt time inner.children) := by
  rw [trim_through_met, trim_through_met, meet_all_append, List.flatMap_append,
    List.flatMap_singleton]

/-- Visible trims make no trim exactly when there are none of them. -/
theorem trim_through_none (time : S) (containers : List (Node S P)) :
    trimThrough time containers = none ↔
      ∀ container ∈ containers, container.visibleTrims = [] := by
  simp only [trimThrough, ← meet_all_composed, meet_all_none, true_and, List.flatMap_eq_nil_iff,
    List.map_eq_nil_iff]

/-- There are windows in a container exactly when a visible trim is among its children. -/
theorem windows_nonempty (time : S) (node : Node S P) :
    (!(windowsAt time node.children).isEmpty) = true ↔
      ∃ child ∈ node.children, child.head.hidden = false ∧ ∃ trim, child.kind = .trim trim := by
  have window (child : Node S P) : (∃ window, child.windowAt? time = some window) ↔
      child.head.hidden = false ∧ ∃ trim, child.kind = .trim trim := by
    obtain ⟨head, kind, effects, children⟩ := child
    cases kind <;> simp [windowAt?, Node.kind, Node.head]
  rw [Bool.not_eq_true', List.isEmpty_eq_false_iff_exists_mem]
  simp only [windowsAt, List.mem_filterMap, ← window]
  constructor
  · rintro ⟨found, child, member, same⟩
    exact ⟨child, member, found, same⟩
  · rintro ⟨child, member, found, same⟩
    exact ⟨found, child, member, same⟩

section Ways

variable [Scalar P] [Widen S P] [Measure P]

/-- Everything below an effect is an effect. -/
theorem Way.effect_fits {top node : Node S P} {path : List (Node S P)} (way : Way top path node)
    (fits : top.Fits .effect) : node.Fits .effect := by
  induction way with
  | here node => exact fits
  | child top next node path member rest inductionHypothesis =>
    apply inductionHypothesis
    cases fits with
    | effectGroup head children childrenFit => exact childrenFit next member
    | control head kind control => simp [Node.children] at member
  | effect top next node path member rest inductionHypothesis =>
    cases fits <;> simp [Node.effects] at member

/-- Below contents that are at a time everything that can be seen is contents at that time. The trim
around it has met the windows of every container on the way, which are all groups.

The induction follows the way down. A group keeps the time, and hands on the trim around it after
that has met the windows in the group. -/
theorem Way.content_at_time {time : S} {around : Option (Trim.Window S)} {top node : Node S P}
    {path : List (Node S P)} (way : Way top path node) (fits : top.Fits .content)
    (current : top.AtTime time around) (shown : ∀ passed ∈ path, passed.head.hidden = false) :
    node.Fits .content ∧
      node.AtTime time (meetAll around
        (path.flatMap fun container => windowsAt time container.children)) := by
  induction way generalizing around with
  | here node => exact ⟨fits, current⟩
  | child top next node path member rest inductionHypothesis =>
    cases fits with
    | plain head kind plain coherent => simp [Node.children] at member
    | group head group children childrenFit =>
      have visible : head.hidden = false := shown _ List.mem_cons_self
      obtain ⟨-, -, childrenCurrent⟩ :=
        container_at_time _ _ _ _ _ _ visible rfl current
      rw [List.flatMap_cons, ← meet_all_append]
      exact inductionHypothesis (childrenFit next member) (childrenCurrent next member)
        fun passed inside => shown passed (List.mem_cons_of_mem _ inside)
  | effect top next node path member rest inductionHypothesis =>
    cases fits <;> simp [Node.effects] at member

/-- Among the children of the root there are no trims. -/
theorem no_trims_at_root (time : S) (layers : List (Node S P))
    (layersFit : ∀ layer ∈ layers, layer.Fits .layer) : windowsAt time layers = [] := by
  refine List.filterMap_eq_nil_iff.mpr fun layer member => ?_
  cases layersFit layer member with
  | layer head content effects children effectsFit childrenFit => rfl

/-- What can be seen in a scene that is at a frame: the root, a layer under no trim, an effect, or
contents of a layer. Contents are at the local time of their layer, under the trim that all
containers from the layer inward make. -/
theorem Way.scene_at_frame {frame : S} {root node : Node S P} {path : List (Node S P)}
    (way : Way root path node) (fits : root.Fits .scene) (current : root.AtTime frame none)
    (shown : ∀ passed ∈ path, passed.head.hidden = false) :
    node = root ∨ node.Fits .effect ∨
    (path = [root] ∧ node.Fits .layer ∧ node.AtTime frame none) ∨
    ∃ layerNode layer groups, path = root :: layerNode :: groups ∧
      layerNode.kind = .layer layer ∧ node.Fits .content ∧
      node.AtTime (layer.localTime frame)
        (trimThrough (layer.localTime frame) (layerNode :: groups)) := by
  cases way with
  | here => exact .inl rfl
  | effect top next node path member rest =>
    cases fits
    simp [Node.effects] at member
  | child top layerNode node path member rest =>
    cases fits with
    | root head layers visible layersFit =>
      obtain ⟨-, -, layersCurrent⟩ := container_at_time _ _ _ _ _ _ visible rfl current
      have layerCurrent : layerNode.AtTime frame none := by
        have here := layersCurrent layerNode member
        rwa [trimWithin, Node.children, no_trims_at_root _ _ layersFit] at here
      have layerFits : layerNode.Fits .layer := layersFit layerNode member
      cases rest with
      | here => exact .inr (.inr (.inl ⟨rfl, layerFits, layerCurrent⟩))
      | effect top next node path member rest =>
        cases layerFits with
        | layer head content effects children effectsFit childrenFit =>
          exact .inr (.inl (rest.effect_fits (effectsFit next member)))
      | child top next node groups member rest =>
        cases layerFits with
        | layer head content effects children effectsFit childrenFit =>
          have layerShown : head.hidden = false :=
            shown (.mk head (.layer content) effects children) (by simp)
          obtain ⟨-, -, childrenCurrent⟩ :=
            container_at_time _ _ _ _ _ _ layerShown rfl layerCurrent
          obtain ⟨nodeFits, nodeCurrent⟩ := rest.content_at_time (childrenFit next member)
            (childrenCurrent next member) fun passed inside => shown passed (by simp [inside])
          refine .inr (.inr (.inr ⟨_, content, groups, rfl, rfl, nodeFits, ?_⟩))
          rw [trim_through_met, List.flatMap_cons, ← meet_all_append]
          exact nodeCurrent

/-- Contents that can be seen in a scene at a frame, which differ from all else in the place of their
kind, are at the local time of their layer, under the trim that the containers from the layer inward
make. -/
theorem Way.contents_at_frame {frame : S} {root node : Node S P} {path : List (Node S P)}
    (way : Way root path node) (fits : root.Fits .scene) (current : root.AtTime frame none)
    (shown : ∀ passed ∈ path, passed.head.hidden = false)
    (isContent : node.kind.place = .content) :
    ∃ layerNode layer groups, path = root :: layerNode :: groups ∧
      layerNode.kind = .layer layer ∧ node.AtTime (layer.localTime frame)
        (trimThrough (layer.localTime frame) (layerNode :: groups)) := by
  rcases way.scene_at_frame fits current shown with rfl | effect | ⟨-, layer, -⟩ |
    ⟨layerNode, layer, groups, through, isLayer, -, placed⟩
  · cases fits.place_unique isContent
  · cases effect.place_unique isContent
  · cases layer.place_unique isContent
  · exact ⟨layerNode, layer, groups, through, isLayer, placed⟩

/-- A shown shape that is at a time holds the trim around it, and the path that is left of its
outline under that trim. -/
theorem shape_at_time {time : S} {around : Option (Trim.Window S)} {node : Node S P}
    {shape : Shape S P} (isShape : node.kind = .shape shape) (shown : node.head.hidden = false)
    (current : node.AtTime time around) :
    shape.trim = around ∧ shape.path = Shape.trimmed shape.trim
      (Shape.untrimmed (shape.contour.update time) shape.reversed) := by
  obtain ⟨head, kind, effects, children⟩ := node
  obtain rfl : kind = .shape shape := isShape
  have same : shape.update time around = shape :=
    Kind.shape.inj (leaf_at_time _ _ _ _ _ _ shown rfl current)
  have trim : shape.trim = around := (congrArg Shape.trim same).symm
  have path : Shape.trimmed around (Shape.untrimmed (shape.contour.update time) shape.reversed) =
      shape.path := congrArg Shape.path same
  rw [trim]
  exact ⟨rfl, path.symm⟩

/-- A shown group that is at a time holds the trim that its own windows make of the one around it,
and knows whether there are any. -/
theorem group_at_time {time : S} {around : Option (Trim.Window S)} {node : Node S P}
    {group : Group S} (isGroup : node.kind = .group group) (shown : node.head.hidden = false)
    (current : node.AtTime time around) :
    group.trim = meetAll around (windowsAt time node.children) ∧
      group.ownsTrim = !(windowsAt time node.children).isEmpty := by
  obtain ⟨head, kind, effects, children⟩ := node
  obtain rfl : kind = .group group := isGroup
  obtain ⟨stored, -, -⟩ := container_at_time _ _ _ _ _ _ shown rfl current
  have same := Kind.group.inj stored
  exact ⟨(congrArg Group.trim same).symm, (congrArg Group.ownsTrim same).symm⟩

/-- A shown layer that is at a frame is shown or not by the frame itself, and holds the trim of its
windows at its local time. -/
theorem layer_at_time {frame : S} {around : Option (Trim.Window S)} {node : Node S P}
    {layer : Layer S} (isLayer : node.kind = .layer layer) (shown : node.head.hidden = false)
    (current : node.AtTime frame around) :
    layer.trim = meetAll none (windowsAt (layer.localTime frame) node.children) ∧
      layer.active = layer.shownAt frame := by
  obtain ⟨head, kind, effects, children⟩ := node
  obtain rfl : kind = .layer layer := isLayer
  obtain ⟨stored, -, -⟩ := container_at_time _ _ _ _ _ _ shown rfl current
  have same := Kind.layer.inj stored
  exact ⟨(congrArg Layer.trim same).symm, (congrArg Layer.active same).symm⟩

end Ways

end Node

variable [Scalar P] [Widen S P] [Measure P]

/-- At a frame, each shape that can be seen has as its trim what the visible trims of its containers
make, from its layer inward and at the local time of the layer; there is none exactly when there is
no such trim. Its path is its outline at that time, cut once if the trim treats every outline by
itself and whole otherwise. Every group and layer that can be seen holds the trim made up to and
including its own contents, and a group owns a trim exactly when it has a visible one. -/
theorem trims_inherited (settings : Trim.Settings) (document : Document S) (scene : Scene S P)
    (reachable : Reachable settings document scene) (frame : S) (path : List (Node S P))
    (node : Node S P) (way : Node.Way (scene.update frame).tree.root path node)
    (shown : ∀ passed ∈ path ++ [node], passed.head.hidden = false) :
    (∀ shape, node.kind = .shape shape → ∃ root layerNode layer groups,
      path = root :: layerNode :: groups ∧ layerNode.kind = .layer layer ∧
      let containers := layerNode :: groups
      let outline : Path P :=
        Shape.untrimmed (shape.contour.update (layer.localTime frame)) shape.reversed
      shape.trim = Node.trimThrough (layer.localTime frame) containers ∧
      (shape.trim = none ↔ ∀ container ∈ containers, container.visibleTrims = []) ∧
      shape.path = match shape.trim with
        | none => outline
        | some window => match window.mode with
          | .simultaneous => outline
          | .individual => window.cut outline) ∧
    (∀ group, node.kind = .group group → ∃ root layerNode layer groups,
      path = root :: layerNode :: groups ∧ layerNode.kind = .layer layer ∧
      group.trim = Node.trimThrough (layer.localTime frame) (layerNode :: groups ++ [node]) ∧
      (group.ownsTrim = true ↔
        ∃ child ∈ node.children, child.head.hidden = false ∧ ∃ trim, child.kind = .trim trim)) ∧
    (∀ layer, node.kind = .layer layer →
      path = [(scene.update frame).tree.root] ∧
      layer.trim = Node.trimThrough (layer.localTime frame) [node]) := by
  have fits := (reachable.updated scene frame).fits
  have current : (scene.update frame).tree.root.AtTime frame none := Node.update_at_time _ _ _
  have nodeShown : node.head.hidden = false := shown node (by simp)
  have places := way.scene_at_frame fits current fun passed member =>
    shown passed (List.mem_append_left _ member)
  have contents (isContent : node.kind.place = .content) :=
    way.contents_at_frame fits current (fun passed member =>
      shown passed (List.mem_append_left _ member)) isContent
  refine ⟨fun shape isShape => ?_, fun group isGroup => ?_, fun layer isLayer => ?_⟩
  · obtain ⟨layerNode, layer, groups, through, isLayer, placed⟩ := contents (by rw [isShape]; rfl)
    obtain ⟨trim, cut⟩ := Node.shape_at_time isShape nodeShown placed
    refine ⟨_, layerNode, layer, groups, through, isLayer, trim, ?_, ?_⟩
    · rw [trim, Node.trim_through_none]
    · rw [cut]
      cases shape.trim with
      | none => rfl
      | some window =>
        cases mode : window.mode <;> simp [Shape.trimmed, Trim.Window.simultaneous, mode]
  · obtain ⟨layerNode, layer, groups, through, isLayer, placed⟩ := contents (by rw [isGroup]; rfl)
    obtain ⟨trim, owns⟩ := Node.group_at_time isGroup nodeShown placed
    refine ⟨_, layerNode, layer, groups, through, isLayer, ?_, ?_⟩
    · rw [trim, Node.trim_through_inner]
    · rw [owns, Node.windows_nonempty]
  · have stands : node.kind.place = .layer := by rw [isLayer]; rfl
    rcases places with rfl | effect | ⟨through, -, placed⟩ | ⟨_, _, _, -, -, content, -⟩
    · cases fits.place_unique stands
    · cases effect.place_unique stands
    · obtain ⟨trim, -⟩ := Node.layer_at_time isLayer nodeShown placed
      refine ⟨through, ?_⟩
      rw [trim, Node.trim_through_met, List.flatMap_singleton]
    · cases content.place_unique stands

/-- A layer that is trimmed, with a group in it that is trimmed once more, around one ellipse. -/
def trimmedTwice : Document Float32 :=
  let trim (finish : Nat) : Json.Value :=
    .object [("e", .object [("k", .natural finish)]), ("ty", .text "tm")]
  let ellipse : Json.Value :=
    .object [("s", .object [("k", .list [.natural 10, .natural 10])]), ("ty", .text "el")]
  let group : Json.Value := .object [("it", .list [ellipse, trim 50]), ("ty", .text "gr")]
  { frameRate := 30
    inPoint := 0
    outPoint := 60
    layers :=
      [.object [("op", .natural 60), ("shapes", .list [group, trim 80]), ("ty", .natural 4)]] }

/-- The group around the ellipse is under a trim, because it has one itself. -/
theorem group_trimmed_twice :
    let scene : Scene Float32 Float := Scene.ofDocument {} trimmedTwice
    let root := (scene.update 12).tree.root
    ∃ layer node group, Node.Way root [root, layer] node ∧ node.kind = .group group ∧
      group.trim ≠ none := by
  intro scene root
  let layer := root.children.get ⟨0, by decide +kernel⟩
  let node := layer.children.get ⟨1, by decide +kernel⟩
  have way : Node.Way root [root, layer] node :=
    .child _ _ _ _ (List.get_mem ..) (.child _ _ _ _ (List.get_mem ..) (.here _))
  have shown : ∀ passed ∈ [root, layer] ++ [node], passed.head.hidden = false := by
    decide +kernel
  have place : node.kind.place = .content ∧ node.kind.isContainer = true := by decide +kernel
  cases kind : node.kind with
  | group group =>
    obtain ⟨top, outer, content, inner, -, -, trim, -⟩ :=
      (trims_inherited {} trimmedTwice scene .loaded 12 _ node way shown).2.1 group kind
    refine ⟨layer, node, group, way, kind, fun noTrim => ?_⟩
    have untrimmed := (Node.trim_through_none _ _).mp (trim.symm.trans noTrim) node (by simp)
    have trims : node.visibleTrims.isEmpty = false := by decide +kernel
    rw [untrimmed] at trims
    cases trims
  | _ => simp [kind, Kind.place, Kind.isContainer] at place

end VectorMotion.Scene
