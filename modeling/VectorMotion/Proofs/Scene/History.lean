import VectorMotion.Proofs.Scene.Building

/-!
# Scenes have no history

A scene of a document may be brought to any times in any order, and drawing it in between looks up
which layers follow which. All of its states are scenes in the sense of the structure, so whatever
is shown of such trees holds of every state. What a scene shows at a frame depends on the document
and the frame alone, and not on the frames that came before.
-/

namespace VectorMotion.Scene

variable {S P : Type} [Scalar S] [Scalar P] [Widen S P] [Measure P]

/-- Changing a node with a number keeps every node in its place if the change does. -/
theorem Node.Fits.modify {place : Place} {node : Node S P} (fits : node.Fits place) (id : Nat)
    (change : Node S P → Node S P)
    (kept : ∀ (place : Place) (node : Node S P), node.Fits place → (change node).Fits place) :
    (node.modify id change).Fits place := by
  induction node generalizing place with
  | mk head kind effects children effectsKept childrenKept =>
    simp only [Node.modify, Node.modifyAll_map]
    split
    · exact kept _ _ fits
    · exact fits.rebuild kind rfl rfl (fun coherent => coherent) _ _
        (fun effect member _ stands => effectsKept effect member stands)
        (fun child member _ stands => childrenKept child member stands)

/-- Looking up the parents of layers leaves a scene a scene. -/
theorem Tree.settle_fits (tree : Tree S P) (ids : List Nat) (fits : tree.root.Fits .scene) :
    (tree.settle ids).root.Fits .scene := by
  unfold Tree.settle
  generalize tree.layers = layers
  induction ids generalizing tree with
  | nil => exact fits
  | cons id rest inductionHypothesis =>
    exact inductionHypothesis _ (fits.modify id _ fun place node stands =>
      stands.mapKind _ (fun kind => by cases kind <;> rfl) (fun kind => by cases kind <;> rfl)
        (fun kind coherent => by cases kind <;> exact coherent))

/-- The states of the scene of a document: as it is loaded, brought to frames, and with parents of
layers looked up, which drawing does. -/
inductive Reachable (settings : Trim.Settings) (document : Document S) : Scene S P → Prop where
  | loaded : Reachable settings document (Scene.ofDocument settings document)
  | updated (scene : Scene S P) (frame : S) (before : Reachable settings document scene) :
      Reachable settings document (scene.update frame)
  | settled (scene : Scene S P) (ids : List Nat) (before : Reachable settings document scene) :
      Reachable settings document { scene with tree := scene.tree.settle ids }

/-- Every state of a scene is a scene: nothing that happens to it moves a node. -/
theorem Reachable.fits {settings : Trim.Settings} {document : Document S} {scene : Scene S P}
    (reachable : Reachable settings document scene) : scene.tree.root.Fits .scene := by
  induction reachable with
  | loaded => exact (Build.document_fits _ _).update _ _
  | updated scene frame before inductionHypothesis => exact inductionHypothesis.update _ _
  | settled scene ids before inductionHypothesis =>
    exact Tree.settle_fits _ _ inductionHypothesis

/-- Drawing a scene leads to one of its states. -/
theorem Reachable.drawn {settings : Trim.Settings} {document : Document S} {scene : Scene S P}
    (reachable : Reachable settings document scene) :
    Reachable settings document { scene with tree := Render.Call.settleDrawn scene.tree } := by
  unfold Render.Call.settleDrawn
  generalize (Render.Call.ofRoot scene.tree.root).filterMap Render.Call.layerDrawn? = ids
  induction ids generalizing scene with
  | nil => exact reachable
  | cons id rest inductionHypothesis =>
    rw [List.foldl_cons]
    cases found : scene.tree.at? id with
    | none => exact inductionHypothesis reachable
    | some placed =>
      exact @inductionHypothesis { scene with tree := scene.tree.settleChain placed.node }
        (reachable.settled _ _)

/-- Bringing a scene to a frame forgets the frame it was at. -/
theorem frame_forgotten (scene : Scene S P) (earlier later : S) :
    (scene.update earlier).update later = scene.update later := by
  simp only [Scene.update, Tree.update, Node.update_update]

/-- After any frames, the last one alone decides what the scene is, node by node and field by field:
it is the scene that has only just been loaded and then brought to that frame. Nothing that a node
derives is left over from an earlier frame; in particular, a path is never cut by a trim after it
has already been cut. -/
theorem last_frame_decides (settings : Trim.Settings) (document : Document S) (frames : List S)
    (frame : S) :
    let loaded : Scene S P := Scene.ofDocument settings document
    let played := (frames ++ [frame]).foldl Scene.update loaded
    played = loaded.update frame ∧ ∀ node ∈ played.tree.root.listing, node.kind.Coherent := by
  intro loaded played
  have played_forgets (scene : Scene S P) :
      (frames ++ [frame]).foldl Scene.update scene = scene.update frame := by
    induction frames generalizing scene with
    | nil => rfl
    | cons first rest inductionHypothesis =>
      simpa only [List.cons_append, List.foldl_cons, frame_forgotten] using
        inductionHypothesis (scene.update first)
  have same : played = loaded.update frame := played_forgets loaded
  have reachable : Reachable settings document (loaded.update frame) :=
    Reachable.loaded.updated _ frame
  exact ⟨same, by rw [same]; exact reachable.fits.coherent⟩

end Scene

end VectorMotion
