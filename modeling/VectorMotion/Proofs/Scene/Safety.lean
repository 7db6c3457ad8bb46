import VectorMotion.Player
import VectorMotion.Proofs.Json.Numbers
import VectorMotion.Proofs.Keyframe.Lookup
import VectorMotion.Proofs.Scene.Inheritance
import VectorMotion.Proofs.Scene.Lookup
import VectorMotion.Proofs.Scene.Table

/-!
# What stops a scene

Some steps of the work on a document are not defined for every operand: an entry is read at an index
that has to be in its table, a node is found by a number that has to be taken, and a value is kept in
a range whose ends have to be numbers in order. A step that is not defined stops the program.

Only one step can do so. The radius of the corners of a rectangle is kept between zero and half its
shorter side, and where neither side is a number there is no such range. Sides are numbers in every
document that is read from text. But an easing curve with far control points leads beyond the
greatest number, and a way that bends takes the difference of two values that lie there.

The laws that this rests on are those of comparison, and that a number read from text stays a number
when it is rounded to the scalar of a document or widened to that of a path.
-/

namespace VectorMotion

variable {S P : Type} [Scalar S] [Scalar P] [Widen S P]

namespace Path

/-- The path of a rectangle, if there is a range for the radius of its corners. -/
def rectangle? (position size : Vec2 S) (roundness : S) : Option (Path P) :=
  let w : P := widen (Scalar.abs size.x)
  let h : P := widen (Scalar.abs size.y)
  (Scalar.clamp? (widen roundness) 0 (Scalar.min w h / 2)).map fun _ =>
    rectangle position size roundness

section Rectangles

variable [Scalar.Ordered S] [Scalar.Ordered P] [Widen.Faithful S P]

/-- There is no range for the radius of the corners exactly if the size is no number in either
direction. -/
theorem corner_range (size : Vec2 S) :
    (0 : P) ≤ Scalar.min (widen (Scalar.abs size.x)) (widen (Scalar.abs size.y)) / 2 ↔
      unbounded size = false := by
  have number (side : S) : Scalar.isNaN (widen (Scalar.abs side) : P) = Scalar.isNaN side := by
    rw [Widen.Faithful.number, Scalar.Ordered.abs_number]
  have nonneg (side : S) (known : Scalar.isNaN (widen (Scalar.abs side) : P) = false) :
      (0 : P) ≤ widen (Scalar.abs side) :=
    Widen.Faithful.nonneg (Scalar.Ordered.abs_nonneg (number side ▸ known))
  have least := Scalar.min_nonneg (nonneg size.x) (nonneg size.y)
  have sides : unbounded size = false ↔
      Scalar.isNaN (widen (Scalar.abs size.x) : P) = false ∨
        Scalar.isNaN (widen (Scalar.abs size.y) : P) = false := by
    rw [unbounded, Bool.and_eq_false_iff, number, number]
  rw [sides]
  constructor
  · intro below
    have half := (Scalar.Ordered.numbers_of_le below).2
    exact Scalar.number_of_min (Scalar.Ordered.half_number half)
  · exact fun known => Scalar.Ordered.half_nonneg (least.mpr known)

/-- A rectangle fails to be built only if its size has no bound. -/
theorem rectangle_found (position size : Vec2 S) (roundness : S) :
    (rectangle? position size roundness : Option (Path P)) =
      if unbounded size then none else some (rectangle position size roundness) := by
  simp only [rectangle?, Scalar.clamp?, corner_range]
  cases unbounded size <;> rfl

end Rectangles

end Path

namespace Scene

/-- The path of a contour, if one can be made. -/
def Contour.path? : Contour S → Option (Path P)
  | .rectangle position size roundness =>
    Path.rectangle? position.value size.value roundness.value
  | .freeForm vertices => Path.freeForm? vertices.value
  | contour => some contour.path

section Paths

variable [Scalar.Ordered S] [Scalar.Ordered P] [Widen.Faithful S P]

/-- A path can be made of every contour but an unbounded one. -/
theorem Contour.path_found (contour : Contour S) :
    (contour.path? : Option (Path P)) = if contour.unbounded then none else some contour.path := by
  cases contour with
  | rectangle position size roundness => exact Path.rectangle_found _ _ _
  | freeForm vertices => exact Path.vertices_found _
  | _ => rfl

end Paths

/-! ## Numbers of nodes -/

section Rows

variable {S P : Type}

/-- Changing the node with a number keeps all rows if the change does. -/
theorem Node.modify_rows (id : Nat) (change : Node S P → Node S P)
    (kept : ∀ node parent, (change node).rows parent = node.rows parent) (node : Node S P)
    (parent : Option Nat) : (node.modify id change).rows parent = node.rows parent := by
  induction node generalizing parent with
  | mk head kind effects children effectsKept childrenKept =>
    simp only [Node.modify, Node.modifyAll_map]
    split
    · exact kept _ _
    · exact Node.rows_congr _ _ rfl (fun effect member => effectsKept effect member)
        fun child member => childrenKept child member

/-- A change of kinds that makes no layer and unmakes none keeps all rows. -/
theorem Node.map_kind_rows (change : Kind S P → Kind S P)
    (sameSort : ∀ kind, (change kind).layer?.isSome = kind.layer?.isSome) (node : Node S P)
    (parent : Option Nat) : (node.mapKind change).rows parent = node.rows parent := by
  obtain ⟨head, kind, effects, children⟩ := node
  have kept : (Node.mk head (change kind) (effects.map fun effect => effect)
      (children.map fun child => child)).rows parent
        = (Node.mk head kind effects children).rows parent :=
    Node.rows_congr _ _ (sameSort kind) (fun _ _ _ => rfl) fun _ _ _ => rfl
  simpa only [List.map_id', Node.mapKind] using kept

/-- A tree with nothing beside it whose numbers and rows are those of another. -/
structure Tree.SameTable (built tree : Tree S P) : Prop where
  alone : tree.loose = []
  next : tree.next = built.next
  rows : tree.root.rows none = built.root.rows none

/-- Settling mattes in a tree keeps its table. -/
theorem Tree.SameTable.settle {built tree : Tree S P} (same : built.SameTable tree)
    (ids : List Nat) : built.SameTable (tree.settle ids) := by
  unfold Tree.settle
  generalize tree.layers = layers
  induction ids generalizing tree with
  | nil => exact same
  | cons id rest inductionHypothesis =>
    refine inductionHypothesis ⟨?_, same.next, ?_⟩
    · simp [Tree.modify, same.alone]
    · refine (Node.modify_rows _ _ (Node.map_kind_rows _ ?_) _ _).trans same.rows
      intro kind
      cases kind <;> rfl

variable [Scalar S]

/-- A node of which no path can be made holds such a contour. -/
theorem Node.unbounded_iff (node : Node S P) :
    node.isUnbounded = true ↔
      ∃ shape, node.kind = .shape shape ∧ shape.contour.unbounded = true := by
  unfold Node.isUnbounded
  cases node.kind <;> simp

/-- A tree with nothing beside it holds a rectangle of which no path can be made exactly if one of
its nodes is one. -/
theorem Tree.unbounded_iff (tree : Tree S P) (alone : tree.loose = []) :
    tree.isUnbounded = true ↔ ∃ node ∈ tree.root.listing, node.isUnbounded = true := by
  simp only [isUnbounded, placed, alone, List.flatMap_nil, List.append_nil, List.any_eq_true,
    List.mem_mergeSort, ← Node.placed_listing none tree.root, List.mem_map]
  constructor
  · rintro ⟨entry, member, unbounded⟩
    exact ⟨entry.node, ⟨entry, member, rfl⟩, unbounded⟩
  · rintro ⟨node, ⟨entry, member, rfl⟩, unbounded⟩
    exact ⟨entry, member, unbounded⟩

end Rows

variable [Measure P]

/-- In every state of a scene the tree shows the table that it was built with. -/
theorem Reachable.same_table {settings : Trim.Settings} {document : Document S}
    {scene : Scene S P} (reachable : Reachable settings document scene) :
    (Tree.ofDocument settings document : Tree S P).SameTable scene.tree := by
  induction reachable with
  | loaded => exact ⟨rfl, rfl, Node.update_rows _ _ _ _⟩
  | updated scene frame before same =>
    exact ⟨same.alone, same.next, (Node.update_rows _ _ _ _).trans same.rows⟩
  | settled scene ids before same => exact same.settle ids

section States

variable {settings : Trim.Settings} {document : Document S} {scene : Scene S P}

/-- The numbers by which the nodes of a scene refer to each other are those of its nodes. -/
theorem Reachable.consistent (reachable : Reachable settings document scene) :
    Consistent scene.tree.rows ∧ scene.tree.rows.length = scene.tree.size := by
  let built : Tree S P := Tree.ofDocument settings document
  let workshop : Workshop S := ⟨settings, document.assets⟩
  have same : built.SameTable scene.tree := reachable.same_table
  have rows : scene.tree.rows = built.rows := by
    rw [Tree.rows_merged, Tree.rows_merged, same.alone, same.rows]
    rfl
  have taken : Numbered 0 [built.root] built.next :=
    Build.document_numbered workshop document.layers
  have numbered : built.rows.map Row.id = List.range built.next :=
    Tree.rows_numbered built.root built.next taken
  rw [rows, Tree.size, same.next]
  exact ⟨Tree.rows_consistent built.root built.next rfl taken
    (Build.document_fits workshop document.layers), by simpa using congrArg List.length numbered⟩

/-- A scene is stopped by a shape of which no path can be made, and by nothing else. -/
theorem Reachable.unbounded_iff [Scalar.Ordered S] [Scalar.Ordered P] [Widen.Faithful S P]
    (reachable : Reachable settings document scene) :
    scene.isUnbounded = true ↔ ∃ node ∈ scene.tree.root.listing, ∃ shape,
      node.kind = .shape shape ∧ (shape.contour.path? : Option (Path P)) = none := by
  simp only [isUnbounded, Tree.unbounded_iff _ reachable.same_table.alone, Node.unbounded_iff,
    Contour.path_found, ite_eq_left_iff, reduceCtorEq, imp_false, Bool.not_eq_true,
    Bool.not_eq_false]

/-- At a frame a path can be made of every shape that can be seen, unless it is a rectangle whose
size is at that time no number in either direction. -/
theorem Reachable.seen_found [Scalar.Ordered S] [Scalar.Ordered P] [Widen.Faithful S P]
    (reachable : Reachable settings document scene) (frame : S) {path : List (Node S P)}
    {node : Node S P} {shape : Shape S P} (way : Node.Way (scene.update frame).tree.root path node)
    (shown : ∀ passed ∈ path ++ [node], passed.head.hidden = false)
    (isShape : node.kind = .shape shape) :
    (shape.contour.path? : Option (Path P)) = some shape.contour.path ∨
      ∃ root layerNode layer groups position size roundness,
        path = root :: layerNode :: groups ∧ layerNode.kind = .layer layer ∧
        shape.contour = .rectangle position size roundness ∧
        Path.unbounded (size.valueAt (layer.localTime frame)) = true := by
  have fits := (reachable.updated scene frame).fits
  have pathShown : ∀ passed ∈ path, passed.head.hidden = false := fun passed inside =>
    shown passed (List.mem_append_left _ inside)
  obtain ⟨layerNode, layer, groups, through, isLayer, current⟩ :=
    way.contents_at_frame fits (Node.update_at_time _ _ _) pathShown (by rw [isShape]; rfl)
  have nodeShown : node.head.hidden = false := shown node (by simp)
  have contour : shape.contour.update (layer.localTime frame) = shape.contour := by
    obtain ⟨head, kind, effects, children⟩ := node
    obtain rfl : kind = .shape shape := isShape
    have stored := Node.leaf_at_time _ _ _ _ _ _ nodeShown rfl current
    exact congrArg Shape.contour (Kind.shape.inj stored)
  rw [Contour.path_found]
  generalize shape.contour = outline at contour ⊢
  cases outline with
  | rectangle position size roundness =>
    have value : size.value = size.valueAt (layer.localTime frame) := by
      rw [← Track.update_value]
      exact congrArg Track.value (Contour.rectangle.inj contour).2.1.symm
    cases unbounded : Path.unbounded size.value with
    | false => exact .inl (by simp [Contour.unbounded, unbounded])
    | true =>
      exact .inr ⟨_, layerNode, layer, groups, position, size, roundness, through, isLayer, rfl,
        value ▸ unbounded⟩
  | _ => exact .inl rfl

end States

end Scene

/-! ## Players -/

namespace Player

variable [Measure P]

/-- The players of a document: one that has only just been made, and every player after some time
has passed or a frame has been sought. -/
inductive Played (settings : Trim.Settings) (document : Document S) : Player S P → Prop where
  | started : Played settings document (ofScene (Scene.ofDocument settings document))
  | advanced (player : Player S P) (seconds : S) (before : Played settings document player) :
      Played settings document (player.advance seconds)
  | sought (player : Player S P) (frame : Int) (before : Played settings document player) :
      Played settings document (player.seek frame)

/-- Goes to a frame, if there is a range of frames to keep it in. -/
def seek? (player : Player S P) (frame : Int) : Option (Player S P) :=
  let info := player.scene.info
  (Scalar.clamp? (Scalar.ofInt frame) info.inPoint (lastFrame info)).map fun position =>
    refresh { player with position }

/-- A player shows states of the scene of its document. -/
theorem Played.reachable {settings : Trim.Settings} {document : Document S} {player : Player S P}
    (played : Played settings document player) :
    Scene.Reachable settings document player.scene ∧
      player.scene.info = Scene.Info.ofDocument document := by
  have refreshed (player : Player S P)
      (known : Scene.Reachable settings document player.scene ∧
        player.scene.info = Scene.Info.ofDocument document) :
      Scene.Reachable settings document player.refresh.scene ∧
        player.refresh.scene.info = Scene.Info.ofDocument document := by
    unfold refresh
    dsimp only
    split
    · exact known
    · exact ⟨known.1.updated _ _, known.2⟩
  induction played with
  | started => exact refreshed _ ⟨.loaded, rfl⟩
  | advanced player seconds before known => exact refreshed _ known
  | sought player frame before known => exact refreshed _ known

/-- Seeking a frame does not fail, whether the out point lies behind the in point or not. -/
theorem Played.seek_found [Scalar.Ordered S] {settings : Trim.Settings} {document : Document S}
    {player : Player S P} (played : Played settings document player)
    (number : Scalar.isNaN document.inPoint = false) (frame : Int) :
    player.seek? frame = some (player.seek frame) := by
  have range : player.scene.info.inPoint ≤ lastFrame player.scene.info := by
    rw [played.reachable.2]
    exact Scalar.le_max.mpr number
  rw [seek?, Scalar.clamp_ordered range]
  rfl

end Player

namespace Scene

/-- The steps that fail for no document: every read of the spans of a track, of the table of a
gradient and of the vertices of a shape, and every clamp to a fixed range. -/
structure Unfailing (S P : Type) [Scalar S] [Scalar P] [Widen S P] : Prop where
  spans : ∀ (V : Type) [Blend S V] (track : Track S V) (time : S),
    track.valueAt? time = some (track.valueAt time)
  stops : ∀ (table : List S) (count : Nat),
    GradientStop.expand? table count = some (GradientStop.expand table count)
  vertices : ∀ shape : Document.Vertices S,
    Path.freeForm? shape = some (Path.freeForm shape : Path P)
  fraction : ∀ x : S, Scalar.clamp? x 0 1 = some (Scalar.clamp x 0 1)
  fractionOfLength : ∀ x : P, Scalar.clamp? x 0 1 = some (Scalar.clamp x 0 1)
  highlight : ∀ x : S, Scalar.clamp? x (-0.99) 0.99 = some (Scalar.clamp x (-0.99) 0.99)
  offset : ∀ x : S, Scalar.clamp? x (-(Scalar.ofNat Repeater.most)) (Scalar.ofNat Repeater.most) =
    some (Scalar.clamp x (-(Scalar.ofNat Repeater.most)) (Scalar.ofNat Repeater.most))

variable [Scalar.Ordered S] [Scalar.Ordered P]

/-- None of these steps fails, if the scalars are ordered. -/
theorem unfailing : Unfailing S P where
  spans _ _ track time := track.value_found time
  stops := GradientStop.stops_found
  vertices := Path.vertices_found
  fraction := Scalar.clamp_fraction
  fractionOfLength := Scalar.clamp_fraction
  highlight := Scalar.clamp_distance (Scalar.Ordered.ofScientific_nonneg ..)
  offset := Scalar.clamp_distance (Scalar.Ordered.ofNat_nonneg _)

variable [Scalar.Rounds S] [Widen.Faithful S P] [Measure P]

/-- No document that is read from text makes loading, playing or drawing fail, but for one step: a
rectangle whose size is no number in either direction leaves no range for the radius of its corners.

In every state of the scene the numbers by which nodes refer to each other are those of nodes. The
state is stopped exactly if it has a shape of which no path can be made. At a frame that can only be
a rectangle of which the size at the local time of its layer is no number in either direction, among
the shapes that can be seen. Every player shows such a state, and can go to any frame. All other
steps succeed for any operands. -/
theorem stopped_by_rectangles_only (settings : Trim.Settings) (text : String)
    (document : Document S) (read : Document.decode.ofText text = .ok document) :
    Unfailing S P ∧
    (∀ scene : Scene S P, Reachable settings document scene →
      Consistent scene.tree.rows ∧ scene.tree.rows.length = scene.tree.size ∧
      (scene.isUnbounded = true ↔ ∃ node ∈ scene.tree.root.listing, ∃ shape,
        node.kind = .shape shape ∧ (shape.contour.path? : Option (Path P)) = none) ∧
      ∀ (frame : S) (path : List (Node S P)) (node : Node S P) (shape : Shape S P),
        Node.Way (scene.update frame).tree.root path node →
        (∀ passed ∈ path ++ [node], passed.head.hidden = false) → node.kind = .shape shape →
        (shape.contour.path? : Option (Path P)) = some shape.contour.path ∨
          ∃ root layerNode layer groups position size roundness,
            path = root :: layerNode :: groups ∧ layerNode.kind = .layer layer ∧
            shape.contour = .rectangle position size roundness ∧
            Scalar.isNaN (size.valueAt (layer.localTime frame)).x = true ∧
            Scalar.isNaN (size.valueAt (layer.localTime frame)).y = true) ∧
    ∀ player : Player S P, player.Played settings document →
      Reachable settings document player.scene ∧
      ∀ frame, player.seek? frame = some (player.seek frame) := by
  refine ⟨unfailing, fun scene reachable => ?_, fun player played => ?_⟩
  · obtain ⟨consistent, size⟩ := reachable.consistent
    refine ⟨consistent, size, reachable.unbounded_iff, ?_⟩
    intro frame path node shape way shown isShape
    simpa only [Path.unbounded, Bool.and_eq_true] using
      reachable.seen_found frame way shown isShape
  · exact ⟨played.reachable.1, played.seek_found (Document.in_point_number read)⟩

/-- The document that a text is, or none to speak of. -/
def documentOf (text : String) : Document Float :=
  match Document.decode.ofText text with
  | .ok document => document
  | .error _ => default

/-- A text that can be read as a document is read as the one that it is. -/
theorem document_of_read {text : String}
    (read : (Document.decode (S := Float).ofText text).isOk = true) :
    Document.decode.ofText text = .ok (documentOf text) := by
  unfold documentOf
  cases decoded : Document.decode (S := Float).ofText text with
  | ok document => rfl
  | error misfit =>
    rw [decoded] at read
    cases read

/-- A document with one rectangle. -/
def rectangleText : String :=
  "[null,null,0,60,30,9,9,[\x7b\"ty\":4,\"op\":60,\"shapes\":[\x7b\"ty\":\"rc\"\x7d]\x7d]]"

/-- A rectangle of one size throughout, whose width is a number. -/
def isStillRectangle : Kind Float Float → Bool
  | .shape ⟨.rectangle _ size _, _, _, _⟩ => !size.animated && !Scalar.isNaN size.value.x
  | _ => false

/-- A player of the document can go to a frame, and at that frame the rectangle has a path. -/
theorem rectangle_text_played :
    let document := documentOf rectangleText
    let scene : Scene Float Float := Scene.ofDocument {} document
    let player := Player.ofScene scene
    Document.decode.ofText rectangleText = .ok document ∧
      player.seek? 12 = some (player.seek 12) ∧
      ∃ path node shape, Node.Way (scene.update 12).tree.root path node ∧
        node.kind = .shape shape ∧
        (shape.contour.path? : Option (Path Float)) = some shape.contour.path := by
  intro document scene player
  have read : Document.decode.ofText rectangleText = .ok document :=
    document_of_read (by decide +kernel)
  obtain ⟨-, states, players⟩ :=
    stopped_by_rectangles_only (P := Float) {} rectangleText document read
  obtain ⟨-, -, -, seen⟩ := states scene .loaded
  let root := (scene.update 12).tree.root
  let layer := root.children.get ⟨0, by decide +kernel⟩
  let node := layer.children.get ⟨0, by decide +kernel⟩
  have way : Node.Way root [root, layer] node :=
    .child _ _ _ _ (List.get_mem ..) (.child _ _ _ _ (List.get_mem ..) (.here _))
  have shown : ∀ passed ∈ [root, layer] ++ [node], passed.head.hidden = false := by
    decide +kernel
  have still : isStillRectangle node.kind = true := by decide +kernel
  refine ⟨read, (players player .started).2 12, [root, layer], node, ?_⟩
  cases kind : node.kind with
  | shape shape =>
    refine ⟨shape, way, rfl, ?_⟩
    rcases seen 12 _ node shape way shown kind with found |
      ⟨-, -, other, -, position, size, roundness, -, -, isRectangle, none, -⟩
    · exact found
    · obtain ⟨contour, reversed, path, trim⟩ := shape
      obtain rfl : contour = .rectangle position size roundness := isRectangle
      simp only [kind, isStillRectangle, Bool.and_eq_true, Bool.not_eq_true'] at still
      rw [Track.value_at_fixed size still.1, still.2] at none
      cases none
  | _ =>
    rw [kind] at still
    cases still

/-- A document with one rectangle, whose size overshoots so far between two keyframes that it runs
beyond all numbers, on a way that bends. -/
def overshootingText : String :=
  "[null,null,0,60,30,9,9,[\x7b\"ty\":4,\"op\":60,\"shapes\":[\x7b\"ty\":\"rc\",\"s\":\x7b\"k\":[" ++
    "\x7b\"t\":0,\"s\":[1,1],\"e\":[2,2],\"i\":[1,1e110],\"to\":[1,0]\x7d," ++
    "\x7b\"t\":10\x7d]\x7d\x7d]\x7d]]"

/-- Halfway between the keyframes the radius of its corners would have to be kept in a range without
ends, and no path can be made. -/
theorem overshooting_rectangle_stops :
    let document := documentOf overshootingText
    let scene : Scene Float Float := (Scene.ofDocument {} document).update 5
    Document.decode.ofText overshootingText = .ok document ∧ scene.isUnbounded = true ∧
      ∃ node ∈ scene.tree.root.listing, ∃ shape, node.kind = .shape shape ∧
        (shape.contour.path? : Option (Path Float)) = none := by
  intro document scene
  have read : Document.decode.ofText overshootingText = .ok document :=
    document_of_read (by decide +kernel)
  have reachable : Reachable {} document scene := Reachable.loaded.updated _ 5
  have listed : scene.tree.root.listing.any Node.isUnbounded = true := by decide +kernel
  have stopped : scene.isUnbounded = true :=
    (Tree.unbounded_iff scene.tree reachable.same_table.alone).mpr (List.any_eq_true.mp listed)
  exact ⟨read, stopped, reachable.unbounded_iff.mp stopped⟩

end Scene

end VectorMotion
