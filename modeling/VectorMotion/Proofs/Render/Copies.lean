import Mathlib.Data.Nat.Cast.Defs
import VectorMotion.Proofs.Render.Fills
import VectorMotion.Proofs.Render.Repeating

/-!
# How many copies are drawn

Whatever holds for a shape is collected on the way to it, and what is collected is of two sorts.
Paints are put behind those that there are. Copies take the place of those that there are, so of
several repeaters in front of a shape only the last one counts, wherever they stand: it does not
matter whether an earlier one is in the same group or in one around it. A layer begins with neither.

So a shape is drawn as often as it would be with all repeaters multiplied, if those in front of the
last one make one copy each. Otherwise it is drawn less often, or not at all.
-/

namespace VectorMotion.Scene

variable {S P : Type}

namespace Node

/-- The repeater that a node sets for those behind it. -/
def repeater? (node : Node S P) : Option (Repeater S) :=
  match node.head.hidden, node.kind with
  | false, .repeater repeater => some repeater
  | _, _ => none

/-- Whether a node adds a paint for those behind it. -/
def paints (node : Node S P) : Bool :=
  match node.head.hidden, node.kind with
  | false, .fill _ | false, .gradient _ | false, .stroke _ => true
  | _, _ => false

end Node

/-- A repeater makes as many copies as it counts. -/
theorem Repeater.instances_length [Scalar S] [Scalar P] [Widen S P] (repeater : Repeater S) :
    (repeater.instances : List (Affine P × S)).length = repeater.count := by
  rw [instances]
  cases repeater.composite <;> simp

end VectorMotion.Scene

namespace VectorMotion.Render

open Scene

variable {S P : Type} [Scalar S] [Scalar P] [Widen S P]

/-- The copies that hold behind some repeaters: those of the last one. -/
def copiesBehind (before : Option (List (Affine P × S))) (repeaters : List (Repeater S)) :
    Option (List (Affine P × S)) :=
  (repeaters.getLast?.map Repeater.instances).or before

omit [Scalar P] in
/-- The copies behind two lists of repeaters are those behind one list. -/
theorem copies_behind_append (before : Option (List (Affine P × S)))
    (first second : List (Repeater S)) :
    copiesBehind before (first ++ second) = copiesBehind (copiesBehind before first) second := by
  simp only [copiesBehind, List.getLast?_append, Option.map_or, Option.or_assoc]

namespace Canvas

/-- What has been collected on a canvas behind some nodes: the copies of the last repeater, and a
paint of each node that has one. -/
structure Collects (before after : Canvas S P) (passed : List (Node S P)) : Prop where
  copies : after.brush.copies = copiesBehind before.brush.copies (passed.filterMap Node.repeater?)
  paints : after.brush.paints.length = before.brush.paints.length + passed.countP Node.paints

namespace Collects

omit [Scalar P]

/-- Where neither is touched nothing is collected. -/
theorem nothing {before after : Canvas S P} (copies : after.brush.copies = before.brush.copies)
    (paints : after.brush.paints = before.brush.paints) : before.Collects after [] where
  copies := by simp [copies, copiesBehind]
  paints := by simp [paints]

/-- What is collected on the way is collected in the end. -/
theorem trans {first second third : Canvas S P} {passed more : List (Node S P)}
    (before : first.Collects second passed) (behind : second.Collects third more) :
    first.Collects third (passed ++ more) where
  copies := by rw [behind.copies, before.copies, List.filterMap_append, copies_behind_append]
  paints := by rw [behind.paints, before.paints, List.countP_append, Nat.add_assoc]

/-- Nodes of which nothing can be collected make no difference. -/
theorem silent_iff {before after : Canvas S P} {passed : List (Node S P)}
    (silent : ∀ node ∈ passed, node.repeater? = none ∧ node.paints = false) :
    before.Collects after passed ↔ before.Collects after [] := by
  have noRepeaters : passed.filterMap Node.repeater? = [] :=
    List.filterMap_eq_nil_iff.mpr fun node member => (silent node member).1
  have noPaints : passed.countP Node.paints = 0 :=
    List.countP_eq_zero.mpr fun node member => by simp [(silent node member).2]
  constructor <;> rintro ⟨copies, paints⟩ <;>
    exact ⟨by simpa [noRepeaters] using copies, by simpa [noPaints] using paints⟩

/-- A node that leaves the brush alone, and has no copies and no paint of its own. -/
theorem kept {before after : Canvas S P} {node : Node S P} (brush : after.brush = before.brush)
    (noRepeater : node.repeater? = none) (noPaint : node.paints = false) :
    before.Collects after [node] :=
  (silent_iff (by simp [noRepeater, noPaint])).mpr
    (nothing (congrArg Brush.copies brush) (congrArg Brush.paints brush))

end Collects

variable [Measure P]

/-- A node leaves its own paint or copies behind it, and nothing that is below it. A group of effects
is no container, so it could leave more. -/
theorem node_collects (followed : List (LayerEntry S)) (node : Node S P)
    (noEffects : node.kind ≠ .effectGroup) (canvas : Canvas S P) :
    canvas.Collects (canvas.answerAll (Call.ofNode followed node)) [node] := by
  obtain ⟨head, kind, effects, children⟩ := node
  cases hidden : head.hidden with
  | true =>
    rw [Call.of_hidden _ _ _ _ _ hidden]
    exact .kept rfl (by simp [Node.repeater?, Node.head, hidden])
      (by simp [Node.paints, Node.head, hidden])
  | false =>
    cases kind with
    | root =>
      rw [Call.of_root _ _ _ _ hidden,
        bracket_answered (.flatMap fun child _ => node_balanced followed child)]
      exact .kept rfl (by simp [Node.repeater?, Node.kind]) (by simp [Node.paints, Node.kind])
    | layer layer =>
      exact .kept (container_kept followed _ (.inl ⟨layer, rfl⟩) canvas)
        (by simp [Node.repeater?, Node.kind]) (by simp [Node.paints, Node.kind])
    | group group =>
      exact .kept (container_kept followed _ (.inr ⟨group, rfl⟩) canvas)
        (by simp [Node.repeater?, Node.kind]) (by simp [Node.paints, Node.kind])
    | effectGroup => exact absurd rfl noEffects
    | shape shape =>
      rw [Call.of_leaf _ _ _ _ _ hidden rfl]
      exact .kept (canvas.draw_kept shape.path).1 (by simp [Node.repeater?, Node.kind])
        (by simp [Node.paints, Node.kind])
    | _ =>
      -- what is told about the node is answered by the brush alone
      rw [Call.of_leaf _ _ _ _ _ hidden rfl]
      constructor <;>
        simp [Node.repeater?, Node.paints, Node.head, Node.kind, hidden, Call.leaf, answerAll,
          answer, visit, mapBrush, copiesBehind, Brush.addPaint, Brush.within, Brush.faded]

/-- So do nodes, one behind the other. -/
theorem nodes_collect (followed : List (LayerEntry S)) (nodes : List (Node S P))
    (noEffects : ∀ node ∈ nodes, node.kind ≠ .effectGroup) (canvas : Canvas S P) :
    canvas.Collects (canvas.answerAll (nodes.flatMap (Call.ofNode followed))) nodes := by
  induction nodes generalizing canvas with
  | nil => exact .nothing rfl rfl
  | cons first rest inductionHypothesis =>
    rw [List.flatMap_cons, answerAll_append]
    exact (node_collects followed first (noEffects first List.mem_cons_self) canvas).trans
      (inductionHypothesis (fun node member => noEffects node (List.mem_cons_of_mem _ member)) _)

end Canvas

/-- A call that neither sets copies nor adds a paint, and does not go back to others. -/
def Call.isNeutral : Call S P → Bool
  | restore | visit _ (.repeater _) | visit _ (.fill _) | visit _ (.gradient _)
  | visit _ (.stroke _) => false
  | _ => true

namespace Canvas

variable [Measure P]

/-- From neutral calls nothing is collected. -/
theorem neutral_collect (calls : List (Call S P)) (neutral : ∀ call ∈ calls, call.isNeutral = true)
    (canvas : Canvas S P) : canvas.Collects (canvas.answerAll calls) [] := by
  induction calls generalizing canvas with
  | nil => exact .nothing rfl rfl
  | cons call rest inductionHypothesis =>
    have first : canvas.Collects (canvas.answer call) [] := by
      have isNeutral := neutral call List.mem_cons_self
      cases call with
      | restore => cases isNeutral
      | visit head told =>
        cases told with
        | shape shape =>
          obtain ⟨brush, -⟩ := canvas.draw_kept shape.path
          exact .nothing (congrArg Brush.copies brush) (congrArg Brush.paints brush)
        | transform transform =>
          simp only [answer, visit, placePicture]
          split <;> exact .nothing rfl rfl
        | fill | gradient | stroke | repeater => cases isNeutral
        | _ => exact .nothing rfl rfl
      | _ => exact .nothing rfl rfl
    exact first.trans (inductionHypothesis
      (fun other member => neutral other (List.mem_cons_of_mem _ member)) (canvas.answer call))

/-- On the way to a shape everything is collected that is passed, at whatever depth. -/
theorem reached_collects (followed : List (LayerEntry S)) {head : Head} {shape : Scene.Shape S P}
    {nodes passed : List (Node S P)} {calls : List (Call S P)}
    (reached : Reached followed head shape nodes passed calls)
    (noEffects : ∀ node ∈ passed, node.kind ≠ .effectGroup) (canvas : Canvas S P) :
    canvas.Collects (canvas.answerAll calls) passed := by
  induction reached generalizing canvas with
  | here passed rest shown => exact nodes_collect followed passed noEffects canvas
  | @inside front rest owner group _ passed calls _ _ inductionHypothesis =>
    obtain ⟨frontEffects, passedEffects⟩ := List.forall_mem_append.mp noEffects
    have enters : ∀ call ∈ ([.save, .saveTrimming] ++ Call.enterTrim group.trim ++
        [.visit owner .group] : List (Call S P)), call.isNeutral = true := by
      cases group.trim <;> simp [Call.enterTrim, Call.isNeutral]
    rw [answerAll_append, answerAll_append]
    exact (nodes_collect followed front frontEffects canvas).trans
      ((neutral_collect _ enters _).trans (inductionHypothesis passedEffects _))

end Canvas

/-! ## Shapes in a scene -/

variable [Measure P]

/-- Effects are neutral. -/
theorem Call.effects_neutral (followed : List (LayerEntry S)) {node : Node S P}
    (fits : node.Fits .effect) : ∀ call ∈ ofNode followed node, call.isNeutral = true := by
  intro call member
  obtain ⟨head, flood, rfl⟩ := effects_flood followed fits call member
  rfl

/-- What is passed among contents is contents. -/
theorem Reached.content {followed : List (LayerEntry S)} {head : Head} {shape : Scene.Shape S P}
    {nodes passed : List (Node S P)} {calls : List (Call S P)}
    (reached : Reached followed head shape nodes passed calls)
    (fit : ∀ node ∈ nodes, node.Fits .content) : ∀ node ∈ passed, node.Fits .content := by
  induction reached with
  | here passed rest shown => exact (List.forall_mem_append.mp fit).1
  | inside front rest owner group shown below inductionHypothesis =>
    obtain ⟨frontFit, behindFit⟩ := List.forall_mem_append.mp fit
    have groupFits := behindFit _ List.mem_cons_self
    refine List.forall_mem_append.mpr ⟨frontFit, inductionHypothesis ?_⟩
    cases groupFits with
    | group _ _ _ childrenFit => exact childrenFit
    | plain _ _ plain _ => simp [Kind.isPlain] at plain

/-- The calls with which a layer begins, in front of those for its contents. -/
def Call.opening (followed : List (LayerEntry S)) (head : Head) (layer : Layer S)
    (effects : List (Node S P)) : List (Call S P) :=
  [save] ++ effects.flatMap (ofNode followed) ++ parents followed head layer ++
    [visit head (ofLayerKind layer.kind), visit head (.transform layer.transform), saveTrimming] ++
    enterTrim layer.trim

omit [Scalar S] [Scalar P] [Widen S P] [Measure P] in
/-- The calls for a layer: its opening, its children, its trim and its closing. -/
theorem Call.of_layer_opening (followed : List (LayerEntry S)) (head : Head) (layer : Layer S)
    (effects children : List (Node S P)) (shown : head.hidden = false)
    (active : layer.active = true) :
    ofNode followed (.mk head (.layer layer) effects children) =
      opening followed head layer effects ++ (children.flatMap (ofNode followed) ++
        (applyTrim head layer.trim ++ [restoreTrimming, restore])) := by
  simp [of_layer _ _ _ _ _ shown active, opening, trimmed]

/-- A layer begins with neutral calls. -/
theorem Call.opening_neutral (followed : List (LayerEntry S)) (head : Head) (layer : Layer S)
    {effects : List (Node S P)} (fit : ∀ effect ∈ effects, effect.Fits .effect) :
    ∀ call ∈ (opening followed head layer effects : List (Call S P)), call.isNeutral = true := by
  simp only [opening, List.forall_mem_append, List.forall_mem_cons]
  refine ⟨⟨⟨⟨⟨rfl, by simp⟩, fun call member => ?_⟩, fun call member => ?_⟩,
    ?_, rfl, rfl, by simp⟩, ?_⟩
  · obtain ⟨effect, inside, member⟩ := List.mem_flatMap.mp member
    exact effects_neutral followed (fit effect inside) call member
  · obtain ⟨entry, -, rfl⟩ := List.mem_map.mp member
    rfl
  · cases layer.kind <;> rfl
  · cases layer.trim <;> simp [enterTrim, isNeutral]

/-- Layers leave behind them what has held in front of them. -/
theorem Canvas.layers_kept (followed : List (LayerEntry S)) (nodes : List (Node S P))
    (fit : ∀ node ∈ nodes, node.Fits .layer) (canvas : Canvas S P) :
    (canvas.answerAll (nodes.flatMap (Call.ofNode followed))).brush = canvas.brush := by
  induction nodes generalizing canvas with
  | nil => rfl
  | cons first rest inductionHypothesis =>
    obtain ⟨firstFits, restFit⟩ := List.forall_mem_cons.mp fit
    have isLayer : ∃ layer, first.kind = .layer layer := by
      cases firstFits
      exact ⟨_, rfl⟩
    rw [List.flatMap_cons, answerAll_append, inductionHypothesis restFit,
      container_kept followed first (.inl isLayer)]

/-- A layer of a scene begins with nothing set, whatever is drawn in front of it. -/
theorem Canvas.layer_begins {root : Node S P} (fits : root.Fits .scene) {owner : Head}
    {layer : Layer S} {effects children : List (Node S P)}
    (standing : .mk owner (.layer layer) effects children ∈ root.children)
    (shown : owner.hidden = false) (active : layer.active = true) :
    let followed := Parenting.entries root.children
    (∀ effect ∈ effects, effect.Fits .effect) ∧ (∀ child ∈ children, child.Fits .content) ∧
      ∃ before after, Call.ofRoot root = before ++ Call.opening followed owner layer effects ++
          children.flatMap (Call.ofNode followed) ++ after ∧
        (Canvas.ofCalls before).brush = Brush.fresh := by
  cases fits with
  | root rootHead layers rootShown layersFit =>
    obtain ⟨front, back, rfl⟩ := List.append_of_mem standing
    let followed := Parenting.entries (front ++ .mk owner (.layer layer) effects children :: back)
    obtain ⟨frontFit, behindFit⟩ := List.forall_mem_append.mp layersFit
    obtain ⟨effectsFit, childrenFit⟩ : (∀ effect ∈ effects, effect.Fits .effect) ∧
        ∀ child ∈ children, child.Fits .content := by
      cases behindFit _ List.mem_cons_self with
      | layer _ _ _ _ effectsFit childrenFit => exact ⟨effectsFit, childrenFit⟩
    refine ⟨effectsFit, childrenFit, [.save] ++ front.flatMap (Call.ofNode followed),
      Call.applyTrim owner layer.trim ++ [.restoreTrimming, .restore] ++
        back.flatMap (Call.ofNode followed) ++ [.restore], ?_, ?_⟩
    · rw [Call.ofRoot, Call.of_root _ _ _ _ rootShown, List.flatMap_append, List.flatMap_cons,
        Call.of_layer_opening _ _ _ _ _ shown active]
      simp only [Node.children, List.append_assoc, followed]
    · rw [ofCalls, answerAll_append, layers_kept followed front frontFit]
      rfl

/-- When a shape of a layer is drawn, what has been collected for it is what has been passed in the
layer. Nothing comes from other layers, from effects or from the layers that this one follows. -/
theorem Canvas.scene_collects {root : Node S P} (fits : root.Fits .scene) {owner : Head}
    {layer : Layer S} {effects children : List (Node S P)}
    (standing : .mk owner (.layer layer) effects children ∈ root.children)
    (shown : owner.hidden = false) (active : layer.active = true) {head : Head}
    {shape : Scene.Shape S P} {passed : List (Node S P)} {calls : List (Call S P)}
    (reached : Reached (Parenting.entries root.children) head shape children passed calls) :
    ∃ earlier later, Call.ofRoot root = earlier ++ .visit head (.shape shape) :: later ∧
      Canvas.empty.Collects (Canvas.ofCalls earlier) passed := by
  let followed := Parenting.entries root.children
  obtain ⟨effectsFit, childrenFit, before, after, all, fresh⟩ :=
    layer_begins fits standing shown active
  obtain ⟨later, first⟩ := reached.first
  refine ⟨before ++ Call.opening followed owner layer effects ++ calls, later ++ after, ?_, ?_⟩
  · rw [all, first]
    simp only [List.append_assoc, List.cons_append, followed]
  · have noEffects : ∀ node ∈ passed, node.kind ≠ .effectGroup := fun node member isEffects => by
      have place := (reached.content childrenFit node member).place_unique (by rw [isEffects])
      cases place
    have begins : empty.Collects (ofCalls before) [] :=
      .nothing (congrArg Brush.copies fresh) (congrArg Brush.paints fresh)
    have opens := neutral_collect _ (Call.opening_neutral followed owner layer effectsFit)
      (ofCalls before)
    have inside := reached_collects _ reached noEffects
      ((ofCalls before).answerAll (Call.opening followed owner layer effects))
    simpa only [ofCalls, answerAll_append, List.nil_append] using begins.trans (opens.trans inside)

/-- How often a shape is drawn in one paint: once for each copy of the last repeater in front of it. -/
def timesDrawn (repeaters : List (Repeater S)) : Nat := (repeaters.getLast?.map Repeater.count).getD 1

omit [Scalar P] [Widen S P] [Measure P] in
/-- This is as often as with all repeaters multiplied only if it is never, or if each of the others
makes one copy. -/
theorem times_drawn_product_iff (repeaters : List (Repeater S)) :
    timesDrawn repeaters = (repeaters.map Repeater.count).prod ↔
      ∀ last ∈ repeaters.getLast?, last.count = 0 ∨
        ∀ repeater ∈ repeaters.dropLast, repeater.count = 1 := by
  rcases List.eq_nil_or_concat repeaters with rfl | ⟨others, last, rfl⟩
  · simp [timesDrawn]
  · have ones : (others.map Repeater.count).prod = 1 ↔ ∀ repeater ∈ others, repeater.count = 1 := by
      rw [← List.forall_mem_map (P := (· = 1))]
      refine ⟨fun single count member => Nat.dvd_one.mp (single ▸ List.dvd_prod member),
        fun each => List.prod_eq_one each⟩
    rw [List.concat_eq_append, timesDrawn, List.getLast?_concat, List.dropLast_concat,
      List.map_append, List.map_singleton, List.prod_append, List.prod_singleton, ← ones]
    simp only [Option.map_some, Option.getD_some, Option.mem_some_iff, forall_eq']
    rcases Nat.eq_zero_or_pos last.count with none | some
    · simp [none]
    · rw [eq_comm, Nat.mul_eq_right some.ne']
      simp [some.ne']

/-- Of the repeaters in front of a shape only the last one counts. In a scene in which no shapes are
trimmed together, a shape in a layer that is shown is drawn once for each copy of that repeater and
each paint in front of it, with the opacity of the copy, wherever the repeaters stand around it. This
is as often as with all repeaters multiplied just in case there is no paint, or the last one makes no
copies, or each of the others makes one. -/
theorem last_repeater_counts {settings : Trim.Settings} {document : Document S} {scene : Scene S P}
    (reachable : Reachable settings document scene) (apart : TrimStack.Apart {} scene.calls)
    {owner : Head} {layer : Layer S} {effects children : List (Node S P)}
    (standing : .mk owner (.layer layer) effects children ∈ scene.tree.root.children)
    (shown : owner.hidden = false) (active : layer.active = true) {head : Head}
    {shape : Scene.Shape S P} {passed : List (Node S P)} {calls : List (Call S P)}
    (reached :
      Reached (Parenting.entries scene.tree.root.children) head shape children passed calls)
    (outlined : shape.path ≠ []) :
    let repeaters := passed.filterMap Node.repeater?
    let paints := passed.countP Node.paints
    ∃ earlier later, scene.calls = earlier ++ .visit head (.shape shape) :: later ∧
      let canvas := Canvas.ofCalls earlier
      let brush := canvas.brush
      let copies := (repeaters.getLast?.map Repeater.instances).getD [(Affine.identity, 1)]
      let drawn : List (Element S P) := copies.flatMap fun (place, opacity) =>
        brush.paints.map fun paint =>
          .outline shape.path (brush.placed * place) (brush.opacity * opacity) paint brush.cover
      (canvas.answer (.visit head (.shape shape))).elements = canvas.elements ++ drawn ∧
        drawn.length = timesDrawn repeaters * paints ∧
        (drawn.length = (repeaters.map Repeater.count).prod * paints ↔
          paints = 0 ∨ ∀ last ∈ repeaters.getLast?, last.count = 0 ∨
            ∀ repeater ∈ repeaters.dropLast, repeater.count = 1) := by
  intro repeaters paints
  obtain ⟨earlier, later, all, collects⟩ :=
    Canvas.scene_collects reachable.fits standing shown active reached
  refine ⟨earlier, later, all, ?_⟩
  intro canvas brush copies drawn
  have instances : brush.instances = copies := by
    rw [Brush.instances, collects.copies, copiesBehind]
    exact congrArg (Option.getD · _) (Option.or_none ..)
  have painted : brush.paints.length = paints := by
    rw [collects.paints]
    exact Nat.zero_add _
  have alone : canvas.trimming.current ≠ .simultaneous := by
    rw [show scene.calls = _ from all, TrimStack.apart_append] at apart
    rw [show canvas.trimming = TrimStack.answerAll {} earlier from Canvas.answerAll_trimming _ _]
    exact apart.2.1 rfl
  have times : copies.length = timesDrawn repeaters := by
    simp only [copies, timesDrawn]
    cases repeaters.getLast? with
    | none => rfl
    | some last => exact last.instances_length
  have length : drawn.length = timesDrawn repeaters * paints := by
    simp [drawn, painted, times, List.length_flatMap]
  refine ⟨?_, length, ?_⟩
  · have painting : canvas.brush.paint shape.path = drawn := by
      rw [Brush.paint, show canvas.brush.instances = copies from instances]
    simp only [Canvas.answer, Canvas.visit, Canvas.draw, List.isEmpty_iff, outlined, ↓reduceIte,
      beq_iff_eq, alone, painting]
  · rw [length, ← times_drawn_product_iff, mul_eq_mul_right_iff, or_comm]

/-! ## A square behind two repeaters -/

noncomputable section Repeated

/-- A square with a fill, in a group with a repeater for two copies and behind another one for
three. -/
def repeatedSquare : Document ℝ :=
  let keyed (x y : Nat) : Json.Value := .object [("k", .list [.natural x, .natural y])]
  let repeater (copies : Nat) : Json.Value :=
    .object [("c", .object [("k", .natural copies)]), ("ty", .text "rp")]
  let square : Json.Value := .object [("s", keyed 4 4), ("ty", .text "rc")]
  let group : Json.Value :=
    .object [("it", .list [square, .object [("ty", .text "fl")], repeater 2]), ("ty", .text "gr")]
  { frameRate := 30
    inPoint := 0
    outPoint := 60
    layers := [.object [("ks", .object [("p", keyed 0 0)]), ("op", .natural 60),
      ("shapes", .list [group, repeater 3]), ("ty", .natural 4)]] }

/-- A repeater that leaves its copies in their place. -/
def copier (copies : Nat) : Repeater ℝ :=
  (Repeater.ofDocument { copies := { content := .fixed (Scalar.ofNat copies) } }).update 0

/-- What stands in front of the square in its group. -/
def beforeRepeated : List (Node ℝ ℝ) :=
  [.mk { id := 5, name := "" } (.repeater (copier 2)) [] [],
    .mk { id := 4, name := "" } (.fill ((Fill.ofDocument {}).update 0)) [] []]

/-- The layer with its contents. -/
def repeatedContents : List (Node ℝ ℝ) :=
  [.mk { id := 6, name := "" } (.repeater (copier 3)) [] [],
    .mk { id := 2, name := "" } (.group {}) []
      (beforeRepeated ++ [.mk { id := 3, name := "" } (.shape (square none)) [] []])]

/-- The tree of the repeated square, spelled out. -/
theorem repeated_root : (Scene.ofDocument {} repeatedSquare : Scene ℝ ℝ).tree.root =
    Build.rootWith [.mk { id := 1, name := "" } (.layer (shadedLayer 0 none)) []
      repeatedContents] := rfl

/-- A repeater for few copies makes as many as it is for. -/
theorem copier_count (copies : Nat) (few : copies ≤ Repeater.most) :
    (copier copies).count = copies := by
  have value : (copier copies).copies.value = (copies : ℝ) := rfl
  simp only [Repeater.count, Repeater.wholeCount, value, Exact.truncated, Exact.greater,
    Exact.numeral, Nat.cast_zero, max_eq_left (Nat.cast_nonneg (α := ℝ) copies)]
  split_ifs with none all
  · simp_all
  · have most : Repeater.most ≤ copies := by exact_mod_cast all
    exact le_antisymm most few
  · simp [Exact.truncate]

/-- The square is reached behind both repeaters. -/
theorem repeated_reached (followed : List (LayerEntry ℝ)) : ∃ calls,
    Reached followed { id := 3, name := "" } (square none) repeatedContents
      (.mk { id := 6, name := "" } (.repeater (copier 3)) [] [] :: beforeRepeated) calls :=
  ⟨_, .inside [.mk { id := 6, name := "" } (.repeater (copier 3)) [] []] [] { id := 2, name := "" }
    {} rfl (.here beforeRepeated [] rfl)⟩

/-- The calls for the scene. -/
theorem repeated_calls : (Scene.ofDocument {} repeatedSquare : Scene ℝ ℝ).calls =
    [.save, .save, .visit { id := 1, name := "" } .layer,
      .visit { id := 1, name := "" } (.transform (aside 0)), .saveTrimming,
      .visit { id := 6, name := "" } (.repeater (copier 3)), .save, .saveTrimming,
      .visit { id := 2, name := "" } .group,
      .visit { id := 5, name := "" } (.repeater (copier 2)),
      .visit { id := 4, name := "" } (.fill ((Fill.ofDocument {}).update 0)),
      .visit { id := 3, name := "" } (.shape (square none)), .restoreTrimming, .restore,
      .restoreTrimming, .restore, .restore] := by
  have alone (followed : List (LayerEntry ℝ)) : (Call.parents followed { id := 1, name := "" }
      (shadedLayer 0 none) : List (Call ℝ ℝ)) = [] := by
    rw [Call.parents, Parenting.chain, Parenting.chainFrom]
    rfl
  have content : (shadedLayer 0 none).kind = .shapes ∧ (shadedLayer 0 none).transform = aside 0 ∧
      (shadedLayer 0 none).trim = none := ⟨rfl, rfl, rfl⟩
  rw [Scene.calls, repeated_root]
  simp only [repeatedContents, beforeRepeated, Build.rootWith, Call.ofRoot, Call.ofNode,
    Call.ofNodes, Call.layer, Call.group, shaded_shown, content, alone, Call.ofLayerKind, Call.leaf,
    Call.enterTrim, Call.applyTrim, List.cons_append, List.nil_append, List.append_nil,
    Bool.false_eq_true, ↓reduceIte]

/-- No shapes are trimmed together. -/
theorem repeated_apart :
    TrimStack.Apart {} (Scene.ofDocument {} repeatedSquare : Scene ℝ ℝ).calls := by
  rw [repeated_calls]
  simp [TrimStack.Apart, TrimStack.answer, TrimStack.save, TrimStack.restore]

/-- Of the two copies and the three, the square is drawn in the two. -/
theorem square_repeated :
    let scene : Scene ℝ ℝ := Scene.ofDocument {} repeatedSquare
    ∃ earlier later,
      scene.calls = earlier ++ .visit { id := 3, name := "" } (.shape (square none)) :: later ∧
        ((Canvas.ofCalls earlier).answer
          (.visit { id := 3, name := "" } (.shape (square none)))).elements.length =
            (Canvas.ofCalls earlier).elements.length + 2 := by
  intro scene
  have root : scene.tree.root = _ := repeated_root
  obtain ⟨calls, reached⟩ := repeated_reached (Parenting.entries scene.tree.root.children)
  obtain ⟨earlier, later, all, drawn, length, -⟩ := last_repeater_counts .loaded repeated_apart
    (by rw [root]; exact List.mem_singleton_self _) rfl (shaded_shown 0 none) reached
    (square_outlined none).1
  have times : timesDrawn [copier 3, copier 2] = 2 := copier_count 2 (by decide)
  refine ⟨earlier, later, all, ?_⟩
  rw [drawn, List.length_append, length]
  exact congrArg (_ + · * 1) times

/-- The whole drawing is made of two elements, and not of six as it would be if the copies of both
repeaters were multiplied. -/
theorem square_drawn_twice :
    let scene : Scene ℝ ℝ := Scene.ofDocument {} repeatedSquare
    scene.tree.root.children =
        [.mk { id := 1, name := "" } (.layer (shadedLayer 0 none)) [] repeatedContents] ∧
      TrimStack.Apart {} scene.calls ∧ (Canvas.ofCalls scene.calls).elements.length = 2 ∧
      ([copier 3, copier 2].map Repeater.count).prod = 6 := by
  intro scene
  have two : (copier 2).count = 2 := copier_count 2 (by decide)
  refine ⟨congrArg Node.children repeated_root, repeated_apart, ?_, ?_⟩
  · have outlined := (square_outlined none).1
    rw [repeated_calls]
    simp [Canvas.ofCalls, Canvas.answerAll, Canvas.empty, Canvas.answer, Canvas.visit, Canvas.draw,
      Canvas.mapBrush, Canvas.placePicture, outlined, TrimStack.save, TrimStack.restore,
      Brush.paint, Brush.fresh, Brush.within, Brush.faded, Brush.instances, Brush.addPaint,
      Repeater.instances_length, two]
  · simp [two, copier_count 3 (by decide)]

end Repeated

end VectorMotion.Render
