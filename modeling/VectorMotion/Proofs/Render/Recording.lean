import Mathlib.Data.List.Basic
import VectorMotion.Proofs.Render.TrimState

/-!
# What a recording tells about shapes

A recording of a scene that has been brought to a frame writes down one entry for each shape that
can be seen, in the order of drawing: with the path that the frame has left on the shape, and in the
state of the trim that the frame has stored with it. A fresh recording begins with no trimming
state, as a scene does, so nothing is assumed about it.
-/

namespace VectorMotion

open Scene

variable {S P : Type}

namespace Scene

mutual
/-- The shapes that are drawn, in the order of drawing: those that can be seen, in layers that are
shown. -/
def Node.drawn : Node S P → List (Head × Shape S P)
  | .mk head kind effects children =>
    if head.hidden then []
    else
      match kind with
      | .shape shape => [(head, shape)]
      | .layer layer => if layer.active then drawnAll effects ++ drawnAll children else []
      | .root | .group _ | .effectGroup => drawnAll children
      | _ => []

/-- The shapes that are drawn of some nodes. -/
def Node.drawnAll : List (Node S P) → List (Head × Shape S P)
  | [] => []
  | node :: rest => Node.drawn node ++ drawnAll rest
end

/-- The shapes that are drawn of some nodes are those of each, one after the other. -/
theorem Node.drawnAll_flatMap (nodes : List (Node S P)) :
    drawnAll nodes = nodes.flatMap drawn := by
  induction nodes with
  | nil => rfl
  | cons first rest inductionHypothesis =>
    simp only [drawnAll, inductionHypothesis, List.flatMap_cons]

end Scene

namespace Render

namespace Call

/-- Applying a trim visits no shape. -/
theorem apply_trim_no_shapes (head : Head) (trim : Option (Trim.Window S)) :
    (applyTrim head trim : List (Call S P)).filterMap shape? = [] := by
  cases trim with
  | none => rfl
  | some window => cases mode : window.simultaneous <;> simp [applyTrim, mode, shape?]

/-- The trim around a list of calls visits no further shapes. -/
theorem trimmed_shapes (trim : Option (Trim.Window S)) (calls : List (Call S P)) :
    (trimmed trim calls).filterMap shape? = calls.filterMap shape? := by
  cases trim <;> simp [trimmed, enterTrim, List.filterMap_cons, shape?]

/-- A group draws the shapes inside it. -/
theorem group_shapes (head : Head) (content : Scene.Group S) (inside : List (Call S P)) :
    (group head content inside).filterMap shape? = inside.filterMap shape? := by
  have own : (if content.ownsTrim then applyTrim head content.trim else []
      : List (Call S P)).filterMap shape? = [] := by
    split
    · exact apply_trim_no_shapes head content.trim
    · rfl
  simp [group_bracket, trimmed_shapes, own, List.filterMap_cons, shape?]

/-- A layer that is shown draws the shapes of its effects and those inside it. -/
theorem layer_shapes (followed : List (LayerEntry S)) (head : Head) (content : Scene.Layer S)
    (effects inside : List (Call S P)) :
    (layer followed head content effects inside).filterMap shape? =
      if content.active then effects.filterMap shape? ++ inside.filterMap shape? else [] := by
  cases active : content.active with
  | false => simp [layer_inactive _ _ _ _ _ active]
  | true =>
    have placed : (parents followed head content : List (Call S P)).filterMap shape? = [] :=
      List.filterMap_eq_nil_iff.mpr fun call member => by
        obtain ⟨owner, visit, rfl, sets⟩ := parents_set followed head content call member
        cases visit <;> first | rfl | simp [Visit.isSetting] at sets
    cases kind : content.kind <;>
      simp [layer_bracket _ _ _ _ _ active, trimmed_shapes, placed, apply_trim_no_shapes,
        List.filterMap_cons, shape?, ofLayerKind, kind]

/-- The calls for a node draw the shapes that can be seen in it, in their order. -/
theorem shapes_drawn (followed : List (LayerEntry S)) (node : Node S P) :
    (ofNode followed node).filterMap shape? = node.drawn := by
  induction node with
  | mk head kind effects children effectsDrawn childrenDrawn =>
    have ofAll (nodes : List (Node S P))
        (each : ∀ node ∈ nodes, (ofNode followed node).filterMap shape? = node.drawn) :
        (ofNodes followed nodes).filterMap shape? = Node.drawnAll nodes := by
      rw [ofNodes_flatMap, Node.drawnAll_flatMap, List.filterMap_flatMap]
      exact List.flatMap_congr each
    have ofEffects := ofAll effects effectsDrawn
    have ofChildren := ofAll children childrenDrawn
    unfold ofNode Node.drawn
    cases hidden : head.hidden with
    | true => rfl
    | false =>
      cases kind with
      | root => simp [ofChildren, List.filterMap_cons, shape?]
      | layer content => simp [layer_shapes, ofEffects, ofChildren]
      | group content => simp [group_shapes, ofChildren]
      | effectGroup => simp [ofChildren]
      | _ => rfl

end Call

namespace Entry

/-- The methods with which shapes are drawn. -/
def shapeMethods : List String := ["rect", "ellipse", "round", "free_form"]

/-- Whether an entry is one for a shape. -/
def isShape (entry : Entry P) : Bool := entry.method ∈ shapeMethods

/-- The entry of a shape that is drawn in a state. -/
def ofShape : Trimming × Head × Scene.Shape S P → Entry P
  | (state, head, shape) =>
    { method := Visit.contourMethod shape.contour
      node := head.name
      trimming := state
      path := some shape.path }

end Entry

namespace Recording

/-- A recording keeps the trimming states that the calls set. -/
theorem answer_trimming (recording : Recording P) (call : Call S P) :
    (recording.answer call).trimming = recording.trimming.answer call := by
  cases call <;> rfl

/-- The entries for shapes, in the order of drawing. -/
def shapes (recording : Recording P) : List (Entry P) :=
  recording.entries.toList.filter Entry.isShape

/-- A call adds an entry for a shape exactly when it draws one. -/
theorem answer_shapes (recording : Recording P) (call : Call S P) :
    (recording.answer call).shapes = recording.shapes ++
      (call.shape?.map fun shape =>
        Entry.ofShape (recording.trimming.current, shape)).toList := by
  have written (method node : String) (path : Option (Path P)) :
      (recording.write method node path).shapes = recording.shapes ++
        if method ∈ Entry.shapeMethods then
          [⟨method, node, recording.trimming.current, path⟩] else [] := by
    by_cases listed : method ∈ Entry.shapeMethods <;> simp [shapes, write, Entry.isShape, listed]
  cases call with
  | visit head visit =>
    cases visit with
    | shape shape =>
      have named : Visit.contourMethod shape.contour ∈ Entry.shapeMethods := by
        cases shape.contour <;> simp [Visit.contourMethod, Entry.shapeMethods]
      simp only [answer, Visit.method, Visit.path?, written, named, ↓reduceIte]
      rfl
    | _ => exact written _ _ _
  | save | restore => simp [answer, shapes, write, Entry.isShape, Entry.shapeMethods, Call.shape?]
  | _ => simp [answer, shapes, Call.shape?]

/-- The entries for shapes that some calls add are those for the shapes that they draw. -/
theorem answerAll_shapes (recording : Recording P) (calls : List (Call S P)) :
    (recording.answerAll calls).shapes = recording.shapes ++
      (Call.shapesFrom recording.trimming calls).map Entry.ofShape := by
  induction calls generalizing recording with
  | nil => simp [answerAll, Call.shapesFrom]
  | cons call rest inductionHypothesis =>
    have next := inductionHypothesis (recording.answer call)
    rw [answer_trimming, answer_shapes] at next
    refine next.trans ?_
    cases drawn : call.shape? <;> simp [Call.shapesFrom, drawn]

end Recording

variable [Scalar S] [Scalar P] [Widen S P] [Measure P]

/-- In a recording of a scene that has been brought to a frame, the entries for shapes are those for
the shapes that can be seen, each in the state of its own trim and with its own path. -/
theorem shapes_recorded (settings : Trim.Settings) (document : Document S) (scene : Scene S P)
    (reachable : Reachable settings document scene) (frame : S) :
    let updated := scene.update frame
    (Recording.ofCalls updated.calls).shapes = updated.tree.root.drawn.map fun (head, shape) =>
      { method := Visit.contourMethod shape.contour
        node := head.name
        trimming := match shape.trim with
          | none => .off
          | some window => match window.mode with
            | .simultaneous => .simultaneous
            | .individual => .individual
        path := some shape.path } := by
  intro updated
  obtain ⟨layers, phrase, calls⟩ := Call.scene_phrase reachable frame
  have agree : Call.Agrees {} updated.calls := by
    rw [calls]
    exact (phrase.agree {} rfl).bracket
  have drawn : updated.calls.filterMap Call.shape? = updated.tree.root.drawn :=
    Call.shapes_drawn _ _
  have states := agree.2
  rw [drawn] at states
  have recorded := Recording.answerAll_shapes {} updated.calls
  rw [states, List.map_map] at recorded
  refine recorded.trans ?_
  rw [show ({} : Recording P).shapes = [] from rfl, List.nil_append]
  refine List.map_congr_left fun entry _ => ?_
  obtain ⟨head, shape⟩ := entry
  cases trim : shape.trim with
  | none => simp [Entry.ofShape, Trimming.ofTrim, trim]
  | some window =>
    cases mode : window.mode <;>
      simp [Entry.ofShape, Trimming.ofTrim, Trimming.ofMode, trim, mode]

/-- The ellipse under two trims that treat shapes together is drawn while shapes are so trimmed. -/
theorem ellipse_recorded :
    let scene : Scene Float32 Float := Scene.ofDocument {} trimmedTwice
    (Recording.ofCalls (scene.update 12).calls).shapes.map
      (fun entry => (entry.method, entry.trimming)) = [("ellipse", .simultaneous)] := by
  intro scene
  rw [shapes_recorded {} trimmedTwice scene .loaded 12]
  decide +kernel

end Render

end VectorMotion
