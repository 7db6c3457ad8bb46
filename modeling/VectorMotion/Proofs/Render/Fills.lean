import Mathlib.Data.Nat.Cast.Defs
import VectorMotion.Proofs.Render.Fillings
import VectorMotion.Proofs.Render.Settlement
import VectorMotion.Proofs.Render.Untrimmed

/-!
# Fills under trims over the whole path

A scene in which all trims are over the whole path is compared with the same scene in which they are
hidden: shape by shape, the same outlines are filled in the same looks. Two drawings are followed side by
side, the one with trims and the one without. What has been painted on the latter is what has been painted
on the former, together with what waits there.

Gradients need not lie in the same place, because the points of a gradient are not moved with a shape that
waits. They do where the maps that place such shapes leave them alone, and an example shows that they may
not where those move them.
-/

namespace VectorMotion.Render

open Scene

variable {S P : Type}

/-- A brush apart from its mark. -/
def Brush.unmarked (brush : Brush S P) : Brush S P := { brush with mark := 0 }

variable [Scalar S] [Scalar P] [Widen S P]

/-- A canvas on which the maps that place a shape leave the gradients for it where they are, if it has
to wait for a trim. -/
def Canvas.Steady (used : List (GradientFill S)) (canvas : Canvas S P) : Prop :=
  canvas.trimming.current = .simultaneous → ∀ copy ∈ canvas.brush.instances,
    LeavesGradients used canvas.brush.paints (canvas.brush.placed * copy.1)

/-- A canvas that is steady whenever one of some calls draws an outline. -/
def Canvas.StaysSteady [Measure P] (used : List (GradientFill S)) (canvas : Canvas S P)
    (calls : List (Call S P)) : Prop :=
  ∀ before head shape after, calls = before ++ .visit head (.shape shape) :: after →
    shape.path ≠ [] → (canvas.answerAll before).Steady used

variable {condition : Prop} {used : List (GradientFill S)}

namespace Canvas.StaysSteady

variable [Measure P] {canvas : Canvas S P}

/-- Calls that go on behind others stay steady where those have led. -/
theorem parts {first second : List (Call S P)}
    (steady : canvas.StaysSteady used (first ++ second)) :
    canvas.StaysSteady used first ∧ (canvas.answerAll first).StaysSteady used second := by
  constructor
  · rintro before head shape after rfl
    exact steady before head shape (after ++ second) (by simp)
  · rintro before head shape after rfl outlined
    have there := steady (first ++ before) head shape after (by simp) outlined
    rwa [answerAll, List.foldl_append] at there

/-- Among calls of which one draws a shape, a canvas has to be steady for that one. -/
theorem once {front back : List (Call S P)} (head : Head) (shape : Scene.Shape S P)
    (noneBefore : ∀ call ∈ front, call.shape? = none)
    (noneAfter : ∀ call ∈ back, call.shape? = none) (steady : (canvas.answerAll front).Steady used) :
    canvas.StaysSteady used (front ++ .visit head (.shape shape) :: back) := by
  intro before other drawn after parts _
  rcases List.append_eq_append_iff.mp parts with ⟨more, rfl, rest⟩ | ⟨more, rfl, rest⟩
  · cases more with
    | nil => simpa using steady
    | cons first more =>
      obtain ⟨-, rfl⟩ := List.cons.inj rest
      have quiet := noneAfter (.visit other (.shape drawn)) (by simp)
      cases quiet
  · cases more with
    | nil => simpa using steady
    | cons first more =>
      obtain ⟨rfl, -⟩ := List.cons.inj rest
      have quiet := noneBefore (.visit other (.shape drawn)) (by simp)
      cases quiet

end Canvas.StaysSteady

/-! ## Two drawings side by side -/

/-- A canvas on which nothing is trimmed, beside one for the same scene under whole trims. Marks tell
about the queue, and there is only one. What has been painted without trims is what has been painted
and waits under them. -/
structure Canvas.Matches (condition : Prop) (used : List (GradientFill S))
    (trimmed free : Canvas S P) : Prop where
  brush : free.brush.unmarked = trimmed.brush.unmarked
  saved : free.saved.map Brush.unmarked = trimmed.saved.map Brush.unmarked
  off : free.trimming.current = .off ∧ ∀ state ∈ free.trimming.saved, state = .off
  gradients : free.gradients = trimmed.gradients
  picture : free.picture = trimmed.picture
  fillings : Multiset.Rel (Filling.Agrees condition used) free.fillings
    (trimmed.fillings + Multiset.ofList (trimmed.queue.flatMap Queued.fillings))

namespace Canvas.Matches

variable {trimmed free : Canvas S P}

/-- Canvases go on matching when their brushes are changed in the same way. -/
theorem mapBrush (matching : Matches condition used trimmed free)
    (change : Brush S P → Brush S P)
    (same : ∀ brush, (change brush).unmarked = (change brush.unmarked).unmarked) :
    Matches condition used (trimmed.mapBrush change) (free.mapBrush change) where
  brush := by
    change (change free.brush).unmarked = (change trimmed.brush).unmarked
    rw [same, matching.brush, ← same]
  saved := matching.saved
  off := matching.off
  gradients := matching.gradients
  picture := matching.picture
  fillings := matching.fillings

/-- The same is painted on both. -/
theorem painted (matching : Matches condition used trimmed free)
    (elements : List (Element S P)) :
    Multiset.Rel (Filling.Agrees condition used)
      (free.fillings + Multiset.ofList (elements.flatMap Element.fillings))
      ((trimmed.fillings + Multiset.ofList (elements.flatMap Element.fillings)) +
        Multiset.ofList (trimmed.queue.flatMap Queued.fillings)) := by
  rw [add_right_comm]
  exact matching.fillings.add (Multiset.rel_refl_of_refl_on fun filling _ => .same filling)

/-- An image whose place has become known is painted on both. -/
theorem placePicture (matching : Matches condition used trimmed free) :
    Matches condition used trimmed.placePicture free.placePicture := by
  have found := matching.picture
  unfold Canvas.placePicture
  rw [found]
  cases trimmed.picture with
  | none => exact matching
  | some picture =>
    refine ⟨matching.brush, matching.saved, matching.off, matching.gradients, rfl, ?_⟩
    simpa [Canvas.fillings, Element.fillings] using matching.fillings

/-- A shape is drawn on both. Under a trim it waits, and is painted otherwise. -/
theorem draw (matching : Matches condition used trimmed free) {path : Path P}
    (single : path.Single) (steady : condition → path ≠ [] → trimmed.Steady used) :
    Matches condition used (trimmed.draw path) (free.draw path) := by
  have samePaint : free.brush.paint path = trimmed.brush.paint path :=
    -- painting does not look at the mark
    show free.brush.unmarked.paint path = trimmed.brush.unmarked.paint path by rw [matching.brush]
  unfold Canvas.draw
  cases empty : path.isEmpty with
  | true => exact matching
  | false =>
    have freeState : (free.trimming.current == .simultaneous) = false := by
      rw [matching.off.1]
      rfl
    rw [freeState]
    cases state : trimmed.trimming.current == .simultaneous with
    | false =>
      refine ⟨matching.brush, matching.saved, matching.off, matching.gradients, matching.picture, ?_⟩
      have both := matching.painted (trimmed.brush.paint path)
      simpa [Canvas.fillings, samePaint] using both
    | true =>
      refine ⟨matching.brush, matching.saved, matching.off, matching.gradients, matching.picture, ?_⟩
      have outlined : path ≠ [] := by simpa using empty
      have waits := trimmed.brush.queued_agrees single outlined
        (fun holds => steady holds outlined (eq_of_beq state)) trimmed.brush.mark trimmed.queue _ _
        matching.fillings
      simpa [Canvas.fillings, samePaint] using waits

/-- The trimming states of either may change, as long as the free one stays off. -/
theorem states (matching : Matches condition used trimmed free) (trimming freeTrimming : TrimStack)
    (off : freeTrimming.current = .off ∧ ∀ state ∈ freeTrimming.saved, state = .off) :
    Matches condition used { trimmed with trimming } { free with trimming := freeTrimming } :=
  ⟨matching.brush, matching.saved, off, matching.gradients, matching.picture, matching.fillings⟩

variable [Measure P]

/-- What is told about a node that is neither a shape nor a trim changes both in the same way. -/
theorem visit (matching : Matches condition used trimmed free) (told : Visit S P)
    (noShape : ∀ shape, told ≠ .shape shape) (noTrim : ∀ window, told ≠ .trim window) :
    Matches condition used (trimmed.visit told) (free.visit told) := by
  cases told with
  | layer | group => exact matching
  | picture picture =>
    exact ⟨matching.brush, matching.saved, matching.off, matching.gradients, rfl,
      matching.fillings⟩
  | transform transform => exact (matching.mapBrush _ fun _ => rfl).placePicture
  | gradient gradient =>
    have sameCount := congrArg List.length matching.gradients
    simp only [Canvas.visit, sameCount]
    have after := matching.mapBrush
      (fun brush => brush.addPaint (.gradient trimmed.gradients.length gradient.opacity gradient.rule))
      fun _ => rfl
    exact ⟨after.brush, after.saved, after.off, congrArg (· ++ [gradient]) matching.gradients,
      after.picture, after.fillings⟩
  | shape shape => exact absurd rfl (noShape shape)
  | trim window => exact absurd rfl (noTrim window)
  | _ =>
    simp only [Canvas.visit]
    refine matching.mapBrush _ ?_
    exact fun _ => rfl

/-- Both brushes are saved. -/
theorem save (matching : Matches condition used trimmed free) :
    Matches condition used (trimmed.answer .save) (free.answer .save) :=
  ⟨matching.brush, by simp [Canvas.answer, matching.brush, matching.saved], matching.off,
    matching.gradients, matching.picture, matching.fillings⟩

/-- Both go back to the brushes that were saved last. -/
theorem restore (matching : Matches condition used trimmed free) :
    Matches condition used (trimmed.answer .restore) (free.answer .restore) := by
  have saved := matching.saved
  unfold Canvas.answer
  cases trimmedSaved : trimmed.saved with
  | nil =>
    rw [trimmedSaved, List.map_nil, List.map_eq_nil_iff] at saved
    simpa [saved] using matching
  | cons last others =>
    rw [trimmedSaved] at saved
    obtain ⟨freeLast, freeOthers, freeSaved, sameLast, sameOthers⟩ := List.map_eq_cons_iff.mp saved
    simp only [freeSaved]
    exact ⟨sameLast, sameOthers, matching.off, matching.gradients, matching.picture,
      matching.fillings⟩

end Canvas.Matches

/-! ## Whole drawings -/

section Drawings

variable [Measure P] [Widen.Exact S P] [Scalar.Fractions P] {trimmed free : Canvas S P}

/-- A trim that keeps everything paints what it takes from the queue. -/
theorem Canvas.Matches.applyTrim (matching : Matches condition used trimmed free)
    {window : Trim.Window S} (whole : window.Whole) :
    Matches condition used (trimmed.applyTrim window) free := by
  have all : (List.zipWith Queued.paint (trimmed.queue.drop trimmed.brush.mark)
      (window.cutTogether ((trimmed.queue.drop trimmed.brush.mark).map (·.path)))).flatten =
        (trimmed.queue.drop trimmed.brush.mark).flatMap fun queued => queued.paint queued.path := by
    rw [whole.keeps, List.zipWith_map_right, List.zipWith_self, List.flatMap_def]
  have moved : (trimmed.applyTrim window).fillings +
      Multiset.ofList ((trimmed.applyTrim window).queue.flatMap Queued.fillings) =
        trimmed.fillings + Multiset.ofList (trimmed.queue.flatMap Queued.fillings) := by
    have queue := List.take_append_drop trimmed.brush.mark trimmed.queue
    conv_rhs => rw [← queue]
    simp only [Canvas.applyTrim, Canvas.fillings, all, List.flatMap_append, List.flatMap_assoc,
      ← Multiset.coe_add, add_assoc]
    rw [add_comm (Multiset.ofList ((trimmed.queue.take _).flatMap _))]
    rfl
  exact ⟨matching.brush, matching.saved, matching.off, matching.gradients, matching.picture,
    moved ▸ matching.fillings⟩

/-- Calls under whole trims, and those that they are freed to, lead from canvases that match to
canvases that match. -/
theorem Call.Freed.matches {calls freed : List (Call S P)} (drawn : Call.Freed calls freed)
    (matching : Canvas.Matches condition used trimmed free)
    (steady : condition → trimmed.StaysSteady used calls) :
    Canvas.Matches condition used (trimmed.answerAll calls) (free.answerAll freed) := by
  induction drawn generalizing trimmed free with
  | nothing => exact matching
  | sequence first firstFreed second secondFreed ofFirst ofSecond firstMatches secondMatches =>
    rw [Canvas.answerAll, Canvas.answerAll, List.foldl_append, List.foldl_append]
    exact secondMatches (firstMatches matching fun holds => (steady holds).parts.1)
      fun holds => (steady holds).parts.2
  | save => exact matching.save
  | restore => exact matching.restore
  | saveTrimming =>
    exact matching.states _ _ ⟨matching.off.1, List.forall_mem_cons.mpr matching.off⟩
  | restoreTrimming =>
    refine matching.states _ _ ?_
    unfold TrimStack.restore
    split
    case h_1 => exact matching.off
    case h_2 state saved found =>
      have all := matching.off.2
      rw [found] at all
      exact List.forall_mem_cons.mp all
  | visit head told noShape noTrim => exact matching.visit told noShape noTrim
  | shape head shape freedShape path single =>
    have drawn := matching.draw single
      fun holds outlined => steady holds [] head shape [] rfl outlined
    rw [← path] at drawn
    simpa [Canvas.answerAll, Canvas.answer, Canvas.visit, path] using drawn
  | enter => exact matching.states _ _ matching.off
  | trim head window whole => exact matching.applyTrim whole

/-- A drawing that nothing waits in any more, beside one on which nothing is trimmed. -/
theorem Call.Freed.fills {calls freed : List (Call S P)} (drawn : Call.Freed calls freed)
    (emptied : (Canvas.ofCalls calls).queue = []) :
    let trimmed := Canvas.ofCalls calls
    let free := Canvas.ofCalls freed
    free.gradients = trimmed.gradients ∧
      Multiset.Rel (Filling.Agrees (Canvas.empty.StaysSteady trimmed.gradients calls)
        trimmed.gradients) free.fillings trimmed.fillings := by
  intro trimmed free
  have start : Canvas.Matches (Canvas.empty.StaysSteady trimmed.gradients calls)
      trimmed.gradients Canvas.empty (Canvas.empty : Canvas S P) :=
    ⟨rfl, rfl, ⟨rfl, by simp [Canvas.empty]⟩, rfl, rfl, .zero⟩
  have done := drawn.matches start id
  refine ⟨done.gradients, ?_⟩
  have fillings := done.fillings
  change Multiset.Rel _ free.fillings (trimmed.fillings + _) at fillings
  rwa [show (Canvas.empty.answerAll calls).queue = [] from emptied, List.flatMap_nil,
    Multiset.coe_nil, add_zero] at fillings

end Drawings

/-- Nothing waits when a scene has been drawn. -/
theorem Canvas.queue_emptied [Measure P] {settings : Trim.Settings} {document : Document S}
    {scene : Scene S P} (reachable : Reachable settings document scene) (frame : S) :
    (Canvas.ofCalls (scene.update frame).calls).queue = [] := by
  obtain ⟨layers, phrase, bracketed⟩ := Call.scene_phrase reachable frame
  have records := Ledger.of_calls_records (scene.update frame).calls
  have ended := Ledger.layers_settle phrase
  rw [← bracketed] at ended
  rw [← records.canvas, ← records.mirrored, ended.1]
  rfl

/-- Trims over the whole path make no difference to what is filled. A scene at a frame in which all
trims that can be seen treat outlines together and are over the whole path, whatever their offset,
fills the same shapes as the same scene with all its trims hidden, each once: the same outline in the
coordinates of the document, in the same look, by the same gradient if it is one. A gradient also lies
in the same place wherever none of the maps that place a waiting shape moves the points of a gradient
for it.

Proof: the calls for the two scenes are the same but for those about trims. What has been painted
without trims and what has been painted or waits under them is related by one step of either. -/
theorem fills_kept [Measure P] [Scalar.Percents S] [Widen.Exact S P] [Scalar.Fractions P]
    (settings : Trim.Settings) (document : Document S) (scene : Scene S P)
    (reachable : Reachable settings document scene) (frame : S) (trims : List Nat)
    (all : TrimsAre trims scene.tree.root) (whole : TrimsWhole (scene.update frame).tree.root) :
    let calls := (scene.update frame).calls
    let trimmed := Canvas.ofCalls calls
    let free := Canvas.ofCalls ({ scene with tree := scene.tree.hide trims }.update frame).calls
    free.gradients = trimmed.gradients ∧
      Multiset.Rel (fun filling other => filling.Same other ∧
        (Canvas.empty.StaysSteady trimmed.gradients calls →
          filling.Lands trimmed.gradients other)) free.fillings trimmed.fillings :=
  (Call.scene_freed reachable frame trims all whole).fills (Canvas.queue_emptied reachable frame)

/-! ## A square with a gradient -/

noncomputable section Shaded

/-- A square with a gradient under a trim over the whole path, on a layer that lies some way to the
right. -/
def shadedSquare (right : Nat) : Document ℝ :=
  let keyed (x y : Nat) : Json.Value := .object [("k", .list [.natural x, .natural y])]
  let square : Json.Value := .object [("s", keyed 4 4), ("ty", .text "rc")]
  let shading : Json.Value := .object [("e", keyed 4 0), ("ty", .text "gf")]
  let trim : Json.Value := .object [("ty", .text "tm")]
  { frameRate := 30
    inPoint := 0
    outPoint := 60
    layers := [.object [("ks", .object [("p", keyed right 0)]), ("op", .natural 60),
      ("shapes", .list [square, shading, trim]), ("ty", .natural 4)]] }

/-- A transform that moves to the right, and does nothing else. -/
def aside (right : Nat) : Transform ℝ :=
  { anchor := .fixed Vec2.zero
    placement := .unified (.fixed ⟨Scalar.ofNat right, Scalar.ofNat 0⟩)
    percentScale := .fixed (Vec2.both (Scalar.ofNat 100))
    rotation := .fixed (Scalar.ofNat 0)
    percentOpacity := .fixed (Scalar.ofNat 100) }

/-- The layer at the first frame. -/
def shadedLayer (right : Nat) (trim : Option (Trim.Window ℝ)) : Scene.Layer ℝ :=
  let layer : Scene.Layer ℝ :=
    { kind := .shapes, index := none, parentIndex := none, inPoint := Scalar.ofNat 0
      outPoint := Scalar.ofNat 60, startTime := Scalar.ofNat 0, transform := aside right
      clipMode := .none, matteSource := false, active := false, trim, link := none }
  { layer with active := layer.shownAt 0 }

/-- The trim over the whole path. -/
def wholeTrim : TrimPath ℝ := TrimPath.ofDocument {} "" {}

/-- The gradient. -/
def shading : GradientFill ℝ := GradientFill.ofDocument
  { finish := { content := .fixed ⟨Scalar.ofNat 4, Scalar.ofNat 0, Scalar.ofNat 0⟩ } }

/-- The square. -/
def square (trim : Option (Trim.Window ℝ)) : Scene.Shape ℝ ℝ :=
  let contour : Contour ℝ := .rectangle (.fixed Vec2.zero) (.fixed (Vec2.both (Scalar.ofNat 4)))
    (.fixed (Scalar.ofNat 0))
  { contour, reversed := false, path := contour.path, trim }

/-- What is drawn on the layer. -/
def shadedContents (trim : Option (Trim.Window ℝ)) (hidden : Bool) : List (Node ℝ ℝ) :=
  [.mk { id := 4, name := "", hidden } (.trim wholeTrim) [] [],
    .mk { id := 3, name := "" } (.gradient shading) [] [],
    .mk { id := 2, name := "" } (.shape (square trim)) [] []]

/-- The layer with its contents at the first frame. -/
def shadedNode (right : Nat) (trim : Option (Trim.Window ℝ)) (hidden : Bool) : Node ℝ ℝ :=
  .mk { id := 1, name := "" } (.layer (shadedLayer right trim)) [] (shadedContents trim hidden)

/-- The scene of the document. -/
def shadedScene (right : Nat) : Scene ℝ ℝ := Scene.ofDocument {} (shadedSquare right)

/-- The tree of the scene, from its first frame on. -/
theorem shaded_roots (right : Nat) :
    let scene := shadedScene right
    scene.tree.root = Build.rootWith [shadedNode right (some wholeTrim.window) false] ∧
      (scene.update 0).tree.root =
        Build.rootWith [shadedNode right (some wholeTrim.window) false] ∧
      ({ scene with tree := scene.tree.hide [4] }.update 0).tree.root =
        Build.rootWith [shadedNode right none true] :=
  ⟨rfl, rfl, rfl⟩

/-- The layer is shown at the first frame. -/
theorem shaded_shown (right : Nat) (trim : Option (Trim.Window ℝ)) :
    (shadedLayer right trim).active = true := by
  have shown : ((Scalar.ofNat 0 : ℝ) ≤ 0) ∧ (0 : ℝ) ≤ Scalar.ofNat 60 :=
    ⟨Nat.cast_zero.le, Nat.cast_nonneg 60⟩
  simpa [shadedLayer, Layer.shownAt] using shown

/-- What is drawn before the square. -/
def beforeSquare (right : Nat) (trim : Option (Trim.Window ℝ)) : List (Call ℝ ℝ) :=
  [.save, .save, .visit { id := 1, name := "" } .layer,
    .visit { id := 1, name := "" } (.transform (aside right)), .saveTrimming] ++
    Call.enterTrim trim ++ [.visit { id := 3, name := "" } (.gradient shading)]

/-- What is drawn behind the square. -/
def behindSquare (trim : Option (Trim.Window ℝ)) : List (Call ℝ ℝ) :=
  Call.applyTrim { id := 1, name := "" } trim ++ [.restoreTrimming, .restore, .restore]

/-- The calls for the tree at the first frame. -/
theorem shaded_calls (right : Nat) (trim : Option (Trim.Window ℝ)) (hidden : Bool) :
    Call.ofRoot (Build.rootWith [shadedNode right trim hidden]) = beforeSquare right trim ++
      .visit { id := 2, name := "" } (.shape (square trim)) :: behindSquare trim := by
  have alone (followed : List (LayerEntry ℝ)) : (Call.parents followed { id := 1, name := "" }
      (shadedLayer right trim) : List (Call ℝ ℝ)) = [] := by
    rw [Call.parents, Parenting.chain, Parenting.chainFrom]
    rfl
  have shown := shaded_shown right trim
  have content : (shadedLayer right trim).kind = .shapes ∧
      (shadedLayer right trim).transform = aside right ∧
      (shadedLayer right trim).trim = trim := ⟨rfl, rfl, rfl⟩
  cases hidden <;>
    simp only [shadedNode, shadedContents, Build.rootWith, Call.ofRoot, Call.ofNode, Call.ofNodes,
      Call.layer, shown, content, alone, Call.ofLayerKind, Call.leaf, beforeSquare, behindSquare,
      List.append_assoc, List.cons_append, List.nil_append, List.append_nil, Bool.false_eq_true,
      ↓reduceIte]

/-- The map of the layer. -/
theorem aside_map (right : Nat) : ((aside right).map : Affine ℝ) = ⟨1, 0, 0, 1, right, 0⟩ := by
  simp only [aside, Track.fixed, Transform.map, Transform.matrixWith, Affine.ofMatrix,
    Transform.position, Placement.value, Transform.scale, Vec2.divide, Vec2.both, Vec2.zero,
    Exact.matrix_product, Matrix3.apply, Matrix3.displacement, Matrix3.rotation, Matrix3.identity,
    Matrix3.scaling, Scalar.toRadians, Exact.numeral, Exact.sine, Exact.cosine, Exact.widening,
    Exact.opposite]
  norm_num [Scalar.ofNat]

/-- The square has an outline, which is one subpath. -/
theorem square_outlined (trim : Option (Trim.Window ℝ)) :
    (square trim).path ≠ [] ∧ (square trim).path.Single := by
  refine ⟨?_, Path.rectangle_single _ _ _⟩
  change Path.rectangle _ _ _ ≠ []
  unfold Path.rectangle
  simp only
  split <;> simp

/-- The trim of the square is over the whole path. -/
theorem whole_trim : wholeTrim.window.Whole := ⟨rfl, .inl rfl, rfl⟩

/-- It is the only one. -/
theorem square_trim (right : Nat) : TrimsAre [4] (shadedScene right).tree.root ∧
    TrimsWhole ((shadedScene right).update 0).tree.root := by
  obtain ⟨first, atFrame, -⟩ := shaded_roots right
  rw [first, atFrame]
  have listing : (Build.rootWith [shadedNode right (some wholeTrim.window) false]).listing =
      Build.rootWith [shadedNode right (some wholeTrim.window) false] ::
        shadedNode right (some wholeTrim.window) false ::
          shadedContents (some wholeTrim.window) false := rfl
  constructor
  · intro node listed
    rw [listing] at listed
    fin_cases listed <;> simp [Node.id, Node.head, Node.kind, Build.rootWith, shadedNode]
  · intro path held way _ trim isTrim
    have listed := way.listed
    rw [listing] at listed
    fin_cases listed <;> cases isTrim
    exact whole_trim

/-- The square is drawn once with the gradient, where it belongs under the trim and in the coordinates
of its layer without it. -/
theorem square_drawn (right : Nat) :
    let scene := shadedScene right
    let trimmed := Canvas.ofCalls (scene.update 0).calls
    let free := Canvas.ofCalls ({ scene with tree := scene.tree.hide [4] }.update 0).calls
    let path := (square none).path
    let placed := Affine.identity * (aside right).map * Affine.identity
    let opacity := Scalar.ofNat 1 * (aside right).opacity * Scalar.ofNat 1
    let paint := Paint.gradient 0 shading.opacity shading.rule
    trimmed.gradients = [shading] ∧
      trimmed.elements = [.outline (path.place placed) Affine.identity opacity paint none] ∧
      free.elements = [.outline path placed opacity paint none] := by
  intro scene trimmed free path placed opacity paint
  have calls : (scene.update 0).calls = _ :=
    (congrArg Call.ofRoot (shaded_roots right).2.1).trans (shaded_calls _ _ _)
  have freeCalls : ({ scene with tree := scene.tree.hide [4] }.update 0).calls = _ :=
    (congrArg Call.ofRoot (shaded_roots right).2.2).trans (shaded_calls _ _ _)
  have samePath : (square (some wholeTrim.window)).path = path := rfl
  have outlined : path ≠ [] := (square_outlined none).1
  simp only [trimmed, free, calls, freeCalls, Canvas.ofCalls, Call.enterTrim, Call.applyTrim,
    Trim.Window.simultaneous, whole_trim.together, Trimming.ofMode, beforeSquare, behindSquare]
  refine ⟨?_, ?_, ?_⟩
  · simp [Canvas.answerAll, Canvas.empty, Canvas.answer, Canvas.visit, Canvas.draw, Canvas.mapBrush,
      Canvas.placePicture, samePath, outlined, TrimStack.save, TrimStack.set, Canvas.applyTrim]
  · simp [Canvas.answerAll, Canvas.empty, Canvas.answer, Canvas.visit, Canvas.draw, Canvas.mapBrush,
      Canvas.placePicture, samePath, outlined, TrimStack.save, TrimStack.set, Canvas.applyTrim,
      Brush.fresh, Brush.within, Brush.faded, Brush.queued, Brush.instances, Brush.addPaint,
      whole_trim.keeps, Queued.enqueue, Queued.paint, Path.place, Paint.scaled, placed, paint]
    rfl
  · simp [Canvas.answerAll, Canvas.empty, Canvas.answer, Canvas.visit, Canvas.draw, Canvas.mapBrush,
      Canvas.placePicture, outlined, TrimStack.save, Brush.paint, Brush.fresh, Brush.within,
      Brush.faded, Brush.instances, Brush.addPaint, placed, paint, path]
    rfl

/-- What the two drawings of the square fill: one shape each. -/
theorem square_filled (right : Nat) :
    let scene := shadedScene right
    let trimmed := Canvas.ofCalls (scene.update 0).calls
    let free := Canvas.ofCalls ({ scene with tree := scene.tree.hide [4] }.update 0).calls
    let path := (square none).path
    let placed := Affine.identity * (aside right).map * Affine.identity
    let opacity := Scalar.ofNat 1 * (aside right).opacity * Scalar.ofNat 1
    let paint := Paint.gradient 0 shading.opacity shading.rule
    trimmed.fillings = {⟨path.place placed, Affine.identity, opacity, paint, none⟩} ∧
      free.fillings = {⟨path, placed, opacity, paint, none⟩} := by
  intro scene trimmed free path placed opacity paint
  obtain ⟨-, painted, freely⟩ := square_drawn right
  obtain ⟨outlined, single⟩ := square_outlined none
  constructor
  · rw [Canvas.fillings, painted, List.flatMap_singleton,
      Element.fillings_single (single.place placed) (Path.place_outlined outlined placed)]
    rfl
  · rw [Canvas.fillings, freely, List.flatMap_singleton, Element.fillings_single single outlined]
    rfl

/-- The map that places the square. -/
theorem aside_placed (right : Nat) :
    Affine.identity * (aside right).map * Affine.identity = (⟨1, 0, 0, 1, right, 0⟩ : Affine ℝ) := by
  rw [aside_map, Exact.identity_numbers, Exact.product_numbers, Exact.product_numbers]
  norm_num

/-- It moves the point at which the gradient starts, if it moves anything. -/
theorem origin_moved :
    documentPoint (⟨1, 0, 0, 1, (10 : ℕ), 0⟩ : Affine ℝ) (Vec2.zero : Vec2 ℝ) ≠
      documentPoint Affine.identity (Vec2.zero : Vec2 ℝ) := by
  have different : ((⟨1, 0, 0, 1, (10 : ℕ), 0⟩ : Affine ℝ) == Affine.identity) = false := by
    rw [Exact.identity_numbers]
    simp [BEq.beq, instBEqAffine.beq]
  have start : (Vec2.zero : Vec2 ℝ) = ⟨0, 0⟩ := by
    rw [Vec2.zero, Exact.numeral, Nat.cast_zero]
  rw [documentPoint, different, documentPoint, Exact.identity_numbers, start]
  simp [Affine.apply, Vec2.toPoint]

/-- The gradient of the square starts where the layer begins, and under the trim it stays there when
the layer is ten to the right. -/
theorem gradient_left_behind :
    let scene := shadedScene 10
    let trimmed := Canvas.ofCalls (scene.update 0).calls
    let free := Canvas.ofCalls ({ scene with tree := scene.tree.hide [4] }.update 0).calls
    TrimsAre [4] scene.tree.root ∧ TrimsWhole (scene.update 0).tree.root ∧
      ¬ Multiset.Rel (fun filling other =>
        filling.Same other ∧ filling.Lands trimmed.gradients other) free.fillings
          trimmed.fillings := by
  intro scene trimmed free
  obtain ⟨all, whole⟩ := square_trim 10
  refine ⟨all, whole, fun same => ?_⟩
  obtain ⟨gradients, -, -⟩ := square_drawn 10
  obtain ⟨painted, freely⟩ := square_filled 10
  rw [painted, freely, aside_placed] at same
  obtain ⟨other, member, -, lands⟩ :=
    Multiset.exists_mem_of_rel_of_mem same (Multiset.mem_singleton_self _)
  rw [Multiset.mem_singleton] at member
  have start := lands 0 _ _ rfl shading (by rw [gradients]; rfl) Vec2.zero List.mem_cons_self
  rw [member] at start
  exact origin_moved start.symm

/-- Where the layer is not moved, the gradient lies as it does without the trim. -/
theorem square_shaded_alike :
    let scene := shadedScene 0
    let trimmed := Canvas.ofCalls (scene.update 0).calls
    let free := Canvas.ofCalls ({ scene with tree := scene.tree.hide [4] }.update 0).calls
    trimmed.fillings.card = 1 ∧
      Multiset.Rel (fun filling other =>
        filling.Same other ∧ filling.Lands trimmed.gradients other) free.fillings
          trimmed.fillings := by
  intro scene trimmed free
  obtain ⟨all, whole⟩ := square_trim 0
  obtain ⟨-, kept⟩ := fills_kept {} (shadedSquare 0) scene .loaded 0 [4] all whole
  have steady : Canvas.empty.StaysSteady trimmed.gradients (scene.update 0).calls := by
    have calls : (scene.update 0).calls = _ :=
      (congrArg Call.ofRoot (shaded_roots 0).2.1).trans (shaded_calls _ _ _)
    rw [calls]
    have quiet : ∀ call ∈ behindSquare (some wholeTrim.window), call.shape? = none := by
      intro call member
      simp only [behindSquare, Call.applyTrim] at member
      split at member <;> fin_cases member <;> rfl
    refine .once _ _ (by simp [beforeSquare, Call.enterTrim, Call.shape?]) quiet ?_
    intro _ copy member index opacity rule _ gradient _ point _
    obtain rfl : copy = (Affine.identity, Scalar.ofNat 1) := List.mem_singleton.mp member
    change documentPoint (Affine.identity * (aside 0).map * Affine.identity) point = _
    rw [aside_placed, Nat.cast_zero, ← Exact.identity_numbers]
  refine ⟨?_, kept.mono fun filling _ other _ same => ⟨same.1, same.2 steady⟩⟩
  rw [(square_filled 0).1]
  rfl

end Shaded
end VectorMotion.Render
