import Mathlib
import VectorMotion.Proofs.Render.Lexical
import VectorMotion.Proofs.Scalar.Exact

/-!
# Where copies are drawn

A repeater does not draw. It leaves its copies in what holds for the shapes behind it, and they are
multiplied in when a shape is drawn, behind all maps that have been met by then. So the map of a copy
comes last: a copy of a shape in a group is moved in the coordinates of the group, not in those of
the container in which the repeater stands. The two are the same only where the maps of the groups
commute with those of the copies, as those that only move do.
-/

namespace VectorMotion.Scene.Node

variable {S P : Type} [Scalar S] [Widen S P]

/-- The map that a node sets for those behind it in its container. -/
def mapBehind? (node : Node S P) : Option (Affine P) :=
  match node.head.hidden, node.kind with
  | false, .transform group => some group.map
  | _, _ => none

/-- Whether a node sets copies for those behind it. -/
def repeats (node : Node S P) : Bool :=
  match node.head.hidden, node.kind with
  | false, .repeater _ => true
  | _, _ => false

end VectorMotion.Scene.Node

namespace VectorMotion.Render

open Scene

variable {S P : Type}

/-- A shape that is drawn among some nodes, or in groups among them at any depth. What is passed on
the way to it stands in front of it in its own container, or in front of a group that it is in; the
calls are those that are made up to it. -/
inductive Reached (followed : List (LayerEntry S)) (head : Head) (shape : Scene.Shape S P) :
    List (Node S P) → List (Node S P) → List (Call S P) → Prop where
  | here (passed rest : List (Node S P)) (shown : head.hidden = false) :
      Reached followed head shape (passed ++ .mk head (.shape shape) [] [] :: rest) passed
        (passed.flatMap (Call.ofNode followed))
  | inside (front rest : List (Node S P)) (owner : Head) (group : Scene.Group S)
      {children passed : List (Node S P)} {calls : List (Call S P)} (shown : owner.hidden = false)
      (below : Reached followed head shape children passed calls) :
      Reached followed head shape (front ++ .mk owner (.group group) [] children :: rest)
        (front ++ passed)
        (front.flatMap (Call.ofNode followed) ++ ([.save, .saveTrimming] ++
          Call.enterTrim group.trim ++ [.visit owner .group]) ++ calls)

/-- The calls up to a shape are the first of those for the nodes, and the shape comes next. -/
theorem Reached.first {followed : List (LayerEntry S)} {head : Head} {shape : Scene.Shape S P}
    {nodes passed : List (Node S P)} {calls : List (Call S P)}
    (reached : Reached followed head shape nodes passed calls) :
    ∃ later, nodes.flatMap (Call.ofNode followed) = calls ++ .visit head (.shape shape) :: later := by
  induction reached with
  | here passed rest shown =>
    refine ⟨rest.flatMap (Call.ofNode followed), ?_⟩
    rw [List.flatMap_append, List.flatMap_cons, Call.of_leaf _ _ _ _ _ shown rfl]
    rfl
  | inside front rest owner group shown _ inductionHypothesis =>
    obtain ⟨later, same⟩ := inductionHypothesis
    rw [List.flatMap_append, List.flatMap_cons, Call.of_group _ _ _ _ _ shown, same]
    simp [Call.trimmed]

namespace Canvas

variable [Scalar S] [Scalar P] [Widen S P] [Measure P]

/-- What a node sets for those behind it is its map and its copies. A group of effects is no
container, so it could set more. -/
theorem node_sets (followed : List (LayerEntry S)) (node : Node S P)
    (noEffects : node.kind ≠ .effectGroup) (single : node.repeats = false) (canvas : Canvas S P) :
    let behind := (canvas.answerAll (Call.ofNode followed node)).brush
    behind.placed = node.mapBehind?.toList.foldl (· * ·) canvas.brush.placed ∧
      behind.copies = canvas.brush.copies := by
  obtain ⟨head, kind, effects, children⟩ := node
  simp only [Node.mapBehind?, Node.repeats, Node.head, Node.kind] at single noEffects ⊢
  cases hidden : head.hidden with
  | true =>
    rw [Call.of_hidden _ _ _ _ _ hidden]
    exact ⟨rfl, rfl⟩
  | false =>
    cases kind with
    | root =>
      rw [Call.of_root _ _ _ _ hidden,
        bracket_answered (.flatMap fun child _ => node_balanced followed child)]
      exact ⟨rfl, rfl⟩
    | layer layer =>
      rw [container_kept followed _ (.inl ⟨layer, rfl⟩)]
      exact ⟨rfl, rfl⟩
    | group group =>
      rw [container_kept followed _ (.inr ⟨group, rfl⟩)]
      exact ⟨rfl, rfl⟩
    | effectGroup => exact absurd rfl noEffects
    | repeater repeater => simp [hidden] at single
    | shape shape =>
      rw [Call.of_leaf _ _ _ _ _ hidden rfl]
      obtain ⟨brush, -⟩ := canvas.draw_kept shape.path
      exact ⟨congrArg Brush.placed brush, congrArg Brush.copies brush⟩
    | _ =>
      rw [Call.of_leaf _ _ _ _ _ hidden rfl]
      exact ⟨rfl, rfl⟩

/-- So do nodes, one behind the other. -/
theorem nodes_set (followed : List (LayerEntry S)) (nodes : List (Node S P))
    (noEffects : ∀ node ∈ nodes, node.kind ≠ .effectGroup)
    (single : ∀ node ∈ nodes, node.repeats = false) (canvas : Canvas S P) :
    let behind := (canvas.answerAll (nodes.flatMap (Call.ofNode followed))).brush
    behind.placed = (nodes.filterMap Node.mapBehind?).foldl (· * ·) canvas.brush.placed ∧
      behind.copies = canvas.brush.copies := by
  induction nodes generalizing canvas with
  | nil => exact ⟨rfl, rfl⟩
  | cons first rest inductionHypothesis =>
    obtain ⟨placed, copies⟩ := node_sets followed first (noEffects first List.mem_cons_self)
      (single first List.mem_cons_self) canvas
    obtain ⟨restPlaced, restCopies⟩ := inductionHypothesis
      (fun node member => noEffects node (List.mem_cons_of_mem _ member))
      (fun node member => single node (List.mem_cons_of_mem _ member))
      (canvas.answerAll (Call.ofNode followed first))
    intro behind
    simp only [behind, List.flatMap_cons, answerAll_append]
    rw [restPlaced, restCopies, placed, copies, List.filterMap_cons]
    cases first.mapBehind? <;> exact ⟨rfl, rfl⟩

/-- What holds for a shape is what held when its container began, moved by all maps that are passed
on the way to it. -/
theorem reached_set (followed : List (LayerEntry S)) {head : Head} {shape : Scene.Shape S P}
    {nodes passed : List (Node S P)} {calls : List (Call S P)}
    (reached : Reached followed head shape nodes passed calls)
    (noEffects : ∀ node ∈ passed, node.kind ≠ .effectGroup)
    (single : ∀ node ∈ passed, node.repeats = false) (canvas : Canvas S P) :
    let behind := (canvas.answerAll calls).brush
    behind.placed = (passed.filterMap Node.mapBehind?).foldl (· * ·) canvas.brush.placed ∧
      behind.copies = canvas.brush.copies := by
  induction reached generalizing canvas with
  | here passed rest shown => exact nodes_set followed passed noEffects single canvas
  | @inside front rest owner group _ passed calls _ _ inductionHypothesis =>
    obtain ⟨frontEffects, passedEffects⟩ := List.forall_mem_append.mp noEffects
    obtain ⟨frontSingle, passedSingle⟩ := List.forall_mem_append.mp single
    obtain ⟨placed, copies⟩ := nodes_set followed front frontEffects frontSingle canvas
    let reaches := canvas.answerAll (front.flatMap (Call.ofNode followed))
    let opened := reaches.answerAll
      ([.save, .saveTrimming] ++ Call.enterTrim group.trim ++ [.visit owner .group])
    have entered : opened.brush.placed = reaches.brush.placed ∧
        opened.brush.copies = reaches.brush.copies := by
      simp only [opened]
      cases group.trim <;> exact ⟨rfl, rfl⟩
    obtain ⟨insidePlaced, insideCopies⟩ := inductionHypothesis passedEffects passedSingle opened
    rw [answerAll_append, answerAll_append, List.filterMap_append, List.foldl_append, ← placed,
      ← copies, ← entered.1, ← entered.2]
    exact ⟨insidePlaced, insideCopies⟩

end Canvas

/-- Where outlines are placed exactly, every copy of a shape behind a repeater is drawn with the map
that was in force at the repeater, then the maps of all groups that have been entered since, and then
its own. This holds for a shape that is painted at once and for one that waits for a trim, as long
as no other repeater has been passed. -/
theorem copies_drawn_innermost {S : Type} [Scalar S] [Widen S ℝ] [Measure ℝ]
    (followed : List (LayerEntry S)) (start : Canvas S ℝ) (front back passed : List (Node S ℝ))
    (owner head : Head) (repeater : Repeater S) (shape : Scene.Shape S ℝ)
    (between : List (Call S ℝ)) (shown : owner.hidden = false)
    (reached : Reached followed head shape back passed between)
    (noEffects : ∀ node ∈ passed, node.kind ≠ .effectGroup)
    (single : ∀ node ∈ passed, node.repeats = false) :
    let nodes := front ++ .mk owner (.repeater repeater) [] [] :: back
    let outer := (start.answerAll (front.flatMap (Call.ofNode followed))).brush.placed
    let inner := (passed.filterMap Node.mapBehind?).prod
    let earlier :=
      front.flatMap (Call.ofNode followed) ++ .visit owner (.repeater repeater) :: between
    let canvas := start.answerAll earlier
    let brush := canvas.brush
    (∃ later, nodes.flatMap (Call.ofNode followed) =
        earlier ++ .visit head (.shape shape) :: later) ∧
      canvas.answer (.visit head (.shape shape)) =
        if shape.path.isEmpty then canvas
        else if canvas.trimming.current == .simultaneous then
          { canvas with
            queue := (repeater.instances.map fun (place, opacity) =>
              { path := shape.path.place (outer * inner * place)
                opacity := brush.opacity * opacity
                paints := brush.paints.map
                  (Paint.scaled (Brush.lengthFactor (outer * inner * place)))
                cover := brush.cover }).foldl (Queued.enqueue brush.mark) canvas.queue }
        else
          { canvas with
            elements := canvas.elements ++ repeater.instances.flatMap fun (place, opacity) =>
              brush.paints.map fun paint =>
                .outline shape.path (outer * inner * place) (brush.opacity * opacity) paint
                  brush.cover } := by
  intro nodes outer inner earlier canvas brush
  constructor
  · obtain ⟨later, first⟩ := reached.first
    refine ⟨later, ?_⟩
    have sets : Call.ofNode followed (.mk owner (.repeater repeater) [] [] : Node S ℝ) =
        [.visit owner (.repeater repeater)] := Call.of_leaf followed owner _ [] [] shown rfl
    simp only [nodes, earlier, List.flatMap_append, List.flatMap_cons, sets, first,
      List.append_assoc, List.cons_append, List.nil_append]
  · let behind := (start.answerAll (front.flatMap (Call.ofNode followed))).answer
      (.visit owner (.repeater repeater))
    have split : canvas = behind.answerAll between := by
      simp only [canvas, earlier, Canvas.answerAll_append]
      rfl
    obtain ⟨placed, copies⟩ := Canvas.reached_set followed reached noEffects single behind
    rw [← split] at placed copies
    have total : canvas.brush.placed = outer * inner := by
      calc canvas.brush.placed = (passed.filterMap Node.mapBehind?).foldl (· * ·) (outer * 1) := by
            rw [mul_one]
            exact placed
        _ = outer * inner := by rw [List.foldl_assoc, ← List.prod_eq_foldl]
    have instances : canvas.brush.instances = repeater.instances := by
      rw [Brush.instances, copies]
      rfl
    simp only [Canvas.answer, Canvas.visit, Canvas.draw, Brush.paint, Brush.queued, instances,
      total, brush]

/-! ## A doubled group behind a repeater -/

noncomputable section Doubled

/-- A track that keeps a value. -/
def still {V : Type} (value : V) : Track ℝ V := { spans := #[], value, curved := false }

/-- A transform that moves and scales, and nothing else. -/
def placing (position percentScale : Vec2 ℝ) : Scene.Transform ℝ :=
  { anchor := still ⟨0, 0⟩
    placement := .unified (still position)
    percentScale := still percentScale
    rotation := still 0
    percentOpacity := still 100 }

/-- The transform of a group that is drawn twice as large. -/
def doubling : GroupTransform ℝ := .sheared (placing ⟨0, 0⟩ ⟨200, 200⟩) (still 0) (still 0)

/-- Two copies, the second ten to the right of the first. -/
def tenAside : Repeater ℝ :=
  { copies := still 2
    offset := still 0
    composite := .above
    step :=
      { transform := placing ⟨10, 0⟩ ⟨100, 100⟩
        startOpacity := still 100
        endOpacity := still 100
        opacities := #[1, 1] } }

/-- A fill in front of everything that is drawn. -/
def paintedBlack : Fill ℝ :=
  { color := still Rgba.black, percentOpacity := still 100, rule := .nonZero }

/-- A line. -/
def dash : Scene.Shape ℝ ℝ :=
  { contour := .circle (still ⟨0, 0⟩) (still 0)
    reversed := false
    path := [.move ⟨0, 0⟩, .line ⟨1, 0⟩]
    trim := none }

/-- What stands in front of the line in its group. -/
def beforeDash : List (Node ℝ ℝ) :=
  [.mk { id := 3, name := "" } (.transform doubling) [] [],
    .mk { id := 4, name := "" } (.fill paintedBlack) [] []]

/-- A group with the line, drawn twice as large. -/
def doubledGroup : Node ℝ ℝ :=
  .mk { id := 2, name := "" } (.group {}) []
    (beforeDash ++ [.mk { id := 5, name := "" } (.shape dash) [] []])

/-- The line in the group is drawn once for each copy of a repeater in front of the group, with the
map of the group and then that of the copy. -/
theorem dash_copies :
    let enters : List (Call ℝ ℝ) := [.save, .saveTrimming, .visit { id := 2, name := "" } .group]
    let between := enters ++ beforeDash.flatMap (Call.ofNode [])
    let canvas : Canvas ℝ ℝ := Canvas.empty.answerAll
      (.visit { id := 1, name := "" } (.repeater tenAside) :: between)
    Reached [] { id := 5, name := "" } dash [doubledGroup] beforeDash between ∧
      (canvas.answer (.visit { id := 5, name := "" } (.shape dash))).elements =
        tenAside.instances.flatMap fun (place, opacity) => canvas.brush.paints.map fun paint =>
          .outline dash.path (Affine.identity * [doubling.map].prod * place)
            (canvas.brush.opacity * opacity) paint none := by
  intro enters between canvas
  have reached : Reached [] { id := 5, name := "" } dash [doubledGroup] beforeDash between :=
    .inside [] [] { id := 2, name := "" } {} rfl (.here beforeDash [] rfl)
  have plain : ∀ node ∈ beforeDash, node.kind ≠ .effectGroup ∧ node.repeats = false := by
    intro node member
    rcases List.mem_pair.mp member with rfl | rfl <;> exact ⟨nofun, rfl⟩
  obtain ⟨-, drawn⟩ := copies_drawn_innermost [] Canvas.empty [] [doubledGroup] beforeDash
    { id := 1, name := "" } { id := 5, name := "" } tenAside dash between rfl reached
    (fun node member => (plain node member).1) (fun node member => (plain node member).2)
  exact ⟨reached, congrArg Canvas.elements drawn⟩

/-- The doubling transform, spelled out as a map. -/
theorem doubling_map : (doubling.map : Affine ℝ) = ⟨2, 0, 0, 2, 0, 0⟩ := by
  simp only [doubling, GroupTransform.map, GroupTransform.sheared, placing, still,
    Transform.matrixWith, Affine.ofMatrix, GroupTransform.skewMatrix, Shear.ofAngles,
    Transform.position, Placement.value, Transform.scale, Vec2.divide, Exact.matrix_product,
    Matrix3.apply, Matrix3.displacement, Matrix3.rotation, Matrix3.shear, Matrix3.scaling,
    Scalar.toRadians, Exact.numeral, Exact.sine, Exact.cosine, Exact.tangent, Exact.widening,
    Exact.opposite]
  norm_num

/-- The step of the repeater, spelled out as a matrix. -/
theorem step_matrix : tenAside.step.matrix = ⟨⟨1, 0, 0⟩, ⟨0, 1, 0⟩, ⟨10, 0, 1⟩⟩ := by
  simp only [tenAside, Scene.Step.matrix, placing, still, Transform.position, Placement.value,
    Transform.scale, Vec2.divide, Exact.matrix_product, Matrix3.apply, Matrix3.displacement,
    Matrix3.rotation, Matrix3.scaling, Scalar.toRadians, Exact.numeral, Exact.sine, Exact.cosine,
    Exact.opposite]
  norm_num

/-- The repeater makes two copies. -/
theorem two_copies : tenAside.count = 2 := by
  simp only [tenAside, Repeater.count, Repeater.wholeCount, still, Exact.truncated, Exact.greater,
    Exact.numeral, Repeater.most, Exact.truncate]
  norm_num
  rfl

/-- An offset of zero skips no step. -/
theorem no_offset : Repeater.wholeOffset (0 : ℝ) = 0 := by
  have here : Scalar.clamp (0 : ℝ) (-(Scalar.ofNat Repeater.most)) (Scalar.ofNat Repeater.most) =
      0 := by
    norm_num [Scalar.clamp, Scalar.ofNat, Repeater.most]
  have near : Exact.round 0 = 0 := by norm_num [Exact.round, Int.floor_eq_iff]
  have rounded : Scalar.round (0 : ℝ) = 0 :=
    (congrArg Int.cast near).trans Int.cast_zero
  rw [Repeater.wholeOffset, here, rounded, Exact.truncated]
  norm_num [Exact.truncate, Repeater.most]

/-- The two copies: one in place, one ten to the right. -/
theorem copies_aside : (tenAside.instances : List (Affine ℝ × ℝ)) =
    [(⟨1, 0, 0, 1, 0, 0⟩, 1), (⟨1, 0, 0, 1, 10, 0⟩, 1)] := by
  have steps (index : ℕ) : tenAside.stepsOf index =
      Repeater.withinMost (min index Repeater.most + 0) := by
    rw [Repeater.stepsOf, show tenAside.offset.value = 0 from rfl, no_offset]
  have opacities : tenAside.step.opacityAt 0 = 1 ∧ tenAside.step.opacityAt 1 = 1 := ⟨rfl, rfl⟩
  rw [Repeater.instances, two_copies, show tenAside.composite = .above from rfl]
  simp only [List.range_succ, List.range_zero, List.nil_append, List.map_cons, List.map_nil,
    List.cons_append, Repeater.placeOf, steps, step_matrix, opacities]
  norm_num [Repeater.withinMost, Repeater.most, Repeater.stepped, Matrix3.power, Matrix3.times,
    Matrix3.identity, Affine.ofMatrix, Exact.matrix_product, Matrix3.apply]
  simp only [Exact.numeral]
  norm_num

/-- The second copy of the line is drawn twenty to the right, and not ten as it would be if the
drawing of the group were repeated. -/
theorem copies_stepped_in_group :
    let nodes : List (Node ℝ ℝ) :=
      [.mk { id := 1, name := "" } (.repeater tenAside) [] [], doubledGroup]
    let drawn : Canvas ℝ ℝ := Canvas.empty.answerAll (nodes.flatMap (Call.ofNode []))
    let maps : List (Affine ℝ) := drawn.elements.map fun
      | .outline _ placed _ _ _ => placed
      | .picture _ placed _ => placed
    maps = [⟨2, 0, 0, 2, 0, 0⟩, ⟨2, 0, 0, 2, 20, 0⟩] ∧
      (tenAside.instances : List (Affine ℝ × ℝ)).map
          (fun copy => Affine.identity * copy.1 * doubling.map) =
        [⟨2, 0, 0, 2, 0, 0⟩, ⟨2, 0, 0, 2, 10, 0⟩] := by
  intro nodes drawn maps
  have elements : drawn.elements = tenAside.instances.flatMap fun (place, opacity) =>
      [.outline dash.path (Affine.identity * doubling.map * place)
        ((Brush.fresh : Brush ℝ ℝ).opacity * doubling.transform.opacity * opacity)
        (Paint.ofFill paintedBlack) none] := rfl
  constructor
  · simp only [maps, elements, copies_aside, doubling_map, Exact.identity_numbers,
      Exact.product_numbers]
    norm_num
  · simp only [copies_aside, doubling_map, Exact.identity_numbers, Exact.product_numbers]
    norm_num

end Doubled

end VectorMotion.Render
