import VectorMotion.Proofs.Export.Frames
import VectorMotion.Proofs.Render.Fills
import VectorMotion.Proofs.Scene.Colors
import VectorMotion.Proofs.Svg.Reader
import VectorMotion.Svg.Drawing

/-!
# Opacities that are written

The opacity of an element is a product: of that of its colour, of its paint, of the transforms around
it, and of a copy if a repeater makes copies of it. All of these but the first are brought between zero
and one when they are read. So what is written lies there as well if the colours do, and this is known
of them once they can be told.
-/

namespace VectorMotion

open Scene

namespace Render

/-! ## Opacities of a drawing -/

variable {P : Type}

/-- Whether the opacities of a paint are between zero and one. -/
def Paint.Fractional : Paint ℝ → Prop
  | fill color opacity _ | stroke color opacity .. =>
    color.alpha ∈ Set.Icc (0 : ℝ) 1 ∧ opacity ∈ Set.Icc (0 : ℝ) 1
  | gradient _ opacity _ => opacity ∈ Set.Icc (0 : ℝ) 1

/-- Whether the opacities of an element are between zero and one. -/
def Element.Fractional : Element ℝ P → Prop
  | outline _ _ opacity paint cover => opacity ∈ Set.Icc (0 : ℝ) 1 ∧ paint.Fractional ∧
      ∀ color ∈ cover, color.alpha ∈ Set.Icc (0 : ℝ) 1
  | picture _ _ opacity => opacity ∈ Set.Icc (0 : ℝ) 1

/-- A brush with opacities between zero and one. -/
structure Brush.Fractional (brush : Brush ℝ P) : Prop where
  opacity : brush.opacity ∈ Set.Icc (0 : ℝ) 1
  paints : ∀ paint ∈ brush.paints, paint.Fractional
  copies : ∀ copies ∈ brush.copies, ∀ copy ∈ copies, copy.2 ∈ Set.Icc (0 : ℝ) 1
  cover : ∀ color ∈ brush.cover, color.alpha ∈ Set.Icc (0 : ℝ) 1

/-- A shape that waits with opacities between zero and one. -/
structure Queued.Fractional (shape : Queued ℝ P) : Prop where
  opacity : shape.opacity ∈ Set.Icc (0 : ℝ) 1
  paints : ∀ paint ∈ shape.paints, paint.Fractional
  cover : ∀ color ∈ shape.cover, color.alpha ∈ Set.Icc (0 : ℝ) 1

/-- A canvas with opacities between zero and one. -/
structure Canvas.Fractional (canvas : Canvas ℝ P) : Prop where
  brush : canvas.brush.Fractional
  saved : ∀ brush ∈ canvas.saved, brush.Fractional
  queue : ∀ shape ∈ canvas.queue, shape.Fractional
  elements : ∀ element ∈ canvas.elements, element.Fractional

/-- Whether those opacities that a call tells about as they are stored are between zero and one. -/
def Call.Fractional : Call ℝ P → Prop
  | visit _ (.fill fill) => fill.color.value.alpha ∈ Set.Icc (0 : ℝ) 1
  | visit _ (.stroke stroke) => stroke.color.value.alpha ∈ Set.Icc (0 : ℝ) 1
  | visit _ (.flood flood) => flood.color.value.alpha ∈ Set.Icc (0 : ℝ) 1
  | visit _ (.repeater repeater) =>
    ∀ opacity ∈ repeater.step.opacities, opacity ∈ Set.Icc (0 : ℝ) 1
  | _ => True

/-- What two fractions leave of each other is a fraction. -/
theorem product_within {a b : ℝ} (first : a ∈ Set.Icc (0 : ℝ) 1) (second : b ∈ Set.Icc (0 : ℝ) 1) :
    a * b ∈ Set.Icc (0 : ℝ) 1 := unitInterval.mul_mem first second

/-- Nothing is a fraction of the whole. -/
theorem zero_within : @OfNat.ofNat ℝ 0 (Scalar.instOfNat 0) ∈ Set.Icc (0 : ℝ) 1 := by
  rw [Exact.numeral_zero]
  exact ⟨le_rfl, zero_le_one⟩

/-- The whole is a fraction of itself. -/
theorem one_within : @OfNat.ofNat ℝ 1 (Scalar.instOfNat 1) ∈ Set.Icc (0 : ℝ) 1 := by
  rw [Exact.numeral_one]
  exact ⟨zero_le_one, le_rfl⟩

/-- What is brought between zero and one when it is read. -/
theorem clamped_within (x : ℝ) :
    Scalar.clamp x (Scalar.ofNat 0) (Scalar.ofNat 1) ∈ Set.Icc (0 : ℝ) 1 := by
  have ends : (Scalar.ofNat 0 : ℝ) = 0 ∧ (Scalar.ofNat 1 : ℝ) = 1 :=
    ⟨Exact.numeral_zero, Exact.numeral_one⟩
  rw [ends.1, ends.2]
  exact Easing.clamp_within x

/-- A percentage of a document becomes a fraction, whatever has been authored. -/
theorem fraction_within (percent : ℝ) : fractionOf percent ∈ Set.Icc (0 : ℝ) 1 :=
  clamped_within _

/-- Scaling a paint touches its lengths only, so its opacities stay fractions. -/
theorem Paint.Fractional.scaled {paint : Paint ℝ} (fractional : paint.Fractional) (factor : ℝ) :
    (paint.scaled factor).Fractional := by
  cases paint <;> exact fractional

/-- The copies of a repeater have the opacities that are stored, and none without one is seen. -/
theorem instances_within [Scalar P] [Widen ℝ P] {repeater : Repeater ℝ}
    (stored : ∀ opacity ∈ repeater.step.opacities, opacity ∈ Set.Icc (0 : ℝ) 1) :
    ∀ copy ∈ (repeater.instances : List (Affine P × ℝ)), copy.2 ∈ Set.Icc (0 : ℝ) 1 := by
  have at_index (index : ℕ) : repeater.step.opacityAt index ∈ Set.Icc (0 : ℝ) 1 := by
    rw [Step.opacityAt, Array.getD_eq_getD_getElem?]
    cases found : repeater.step.opacities[index]? with
    | none => exact zero_within
    | some opacity => exact stored opacity (Array.mem_of_getElem? found)
  intro copy member
  have listed : copy ∈ (List.range repeater.count).map fun index =>
      ((repeater.placeOf index : Affine P), repeater.step.opacityAt index) := by
    unfold Repeater.instances at member
    split at member
    · exact member
    · exact List.mem_reverse.mp member
  obtain ⟨index, -, rfl⟩ := List.mem_map.mp listed
  exact at_index index

section Answer

namespace Brush.Fractional

variable {brush : Brush ℝ P} (fractional : brush.Fractional)
include fractional

/-- A brush that is given a fraction as its opacity still holds fractions only. -/
theorem faded {opacity : ℝ} (inside : opacity ∈ Set.Icc (0 : ℝ) 1) :
    (brush.faded opacity).Fractional :=
  { fractional with opacity := product_within fractional.opacity inside }

/-- So does one that is given one more paint. -/
theorem addPaint {paint : Paint ℝ} (added : paint.Fractional) :
    (brush.addPaint paint).Fractional :=
  { fractional with
    paints := List.forall_mem_append.mpr ⟨fractional.paints, List.forall_mem_singleton.mpr added⟩ }

variable [Scalar P]

/-- Every copy that a brush makes has a fraction as its opacity. -/
theorem instances : ∀ copy ∈ brush.instances, copy.2 ∈ Set.Icc (0 : ℝ) 1 := by
  unfold Brush.instances
  cases copies : brush.copies with
  | none => exact List.forall_mem_singleton.mpr one_within
  | some copies => exact fractional.copies _ copies

/-- A brush that is placed elsewhere holds the same opacities. -/
theorem within (placed : Affine P) : (brush.within placed).Fractional :=
  ⟨fractional.opacity, fractional.paints, fractional.copies, fractional.cover⟩

/-- What a brush paints along a path has fractions as its opacities. -/
theorem paint (path : Path P) : ∀ element ∈ brush.paint path, element.Fractional := by
  intro element member
  obtain ⟨copy, isCopy, member⟩ := List.mem_flatMap.mp member
  obtain ⟨paint, isPaint, rfl⟩ := List.mem_map.mp member
  exact ⟨product_within fractional.opacity (fractional.instances copy isCopy),
    fractional.paints paint isPaint, fractional.cover⟩

/-- What a brush queues for a trim has fractions as its opacities. -/
theorem queued [Widen ℝ P] (path : Path P) : ∀ shape ∈ brush.queued path, shape.Fractional := by
  refine List.forall_mem_map.mpr fun copy isCopy => ?_
  refine ⟨product_within fractional.opacity (fractional.instances copy isCopy), ?_, fractional.cover⟩
  exact List.forall_mem_map.mpr fun paint isPaint => (fractional.paints paint isPaint).scaled _

end Brush.Fractional

/-- A queue that takes in one more shape, or joins it to the last, holds fractions only. -/
theorem Queued.Fractional.enqueue {queue : List (Queued ℝ P)} {shape : Queued ℝ P}
    (waiting : ∀ other ∈ queue, other.Fractional) (fractional : shape.Fractional) (mark : Nat) :
    ∀ other ∈ Queued.enqueue mark queue shape, other.Fractional := by
  have behind : ∀ other ∈ queue ++ [shape], other.Fractional :=
    List.forall_mem_append.mpr ⟨waiting, List.forall_mem_singleton.mpr fractional⟩
  unfold Queued.enqueue
  split
  next last isLast =>
    split
    · have same := waiting last (List.mem_of_getLast? isLast)
      refine List.forall_mem_append.mpr ⟨fun other member => ?_, ?_⟩
      · exact waiting other (List.mem_of_mem_dropLast member)
      · exact List.forall_mem_singleton.mpr ⟨same.opacity, same.paints, same.cover⟩
    · exact behind
  next => exact behind

/-- A queue that takes in shapes one after the other holds fractions only. -/
theorem Queued.Fractional.enqueue_all {queue shapes : List (Queued ℝ P)}
    (waiting : ∀ other ∈ queue, other.Fractional) (fractional : ∀ shape ∈ shapes, shape.Fractional)
    (mark : Nat) : ∀ other ∈ shapes.foldl (Queued.enqueue mark) queue, other.Fractional := by
  induction shapes generalizing queue with
  | nil => exact waiting
  | cons shape rest inductionHypothesis =>
    obtain ⟨own, others⟩ := List.forall_mem_cons.mp fractional
    exact inductionHypothesis (.enqueue waiting own mark) others

namespace Canvas

variable {canvas : Canvas ℝ P}

/-- A canvas may take up any brush that holds fractions. -/
theorem Fractional.brushed (fractional : canvas.Fractional)
    {brush : Brush ℝ P} (inside : brush.Fractional) : { canvas with brush }.Fractional :=
  ⟨inside, fractional.saved, fractional.queue, fractional.elements⟩

/-- Placing the picture of a layer puts no opacity but that of the brush on the canvas. -/
theorem Fractional.placed (fractional : canvas.Fractional) :
    canvas.placePicture.Fractional := by
  unfold placePicture
  split
  · exact { fractional with
      elements := List.forall_mem_append.mpr
        ⟨fractional.elements, List.forall_mem_singleton.mpr fractional.brush.opacity⟩ }
  · exact fractional

variable [Scalar P]

/-- An empty canvas has no opacities at all. -/
theorem empty_fractional : (empty : Canvas ℝ P).Fractional :=
  ⟨⟨one_within, by simp [empty, Brush.fresh], by simp [empty, Brush.fresh],
    by simp [empty, Brush.fresh]⟩, by simp [empty], by simp [empty], by simp [empty]⟩

variable [Widen ℝ P]

/-- Drawing a path, or queueing it, keeps all opacities fractions. -/
theorem Fractional.draw (fractional : canvas.Fractional) (path : Path P) :
    (canvas.draw path).Fractional := by
  unfold Canvas.draw
  split
  · exact fractional
  split
  · exact { fractional with
      queue := .enqueue_all fractional.queue (fractional.brush.queued path) _ }
  · exact { fractional with
      elements := List.forall_mem_append.mpr
        ⟨fractional.elements, fractional.brush.paint path⟩ }

variable [Measure P]

/-- A trim paints the shapes in its slice with the opacities that they were queued with. -/
theorem Fractional.applyTrim (fractional : canvas.Fractional) (window : Trim.Window ℝ) :
    (canvas.applyTrim window).Fractional := by
  refine ⟨fractional.brush, fractional.saved,
    fun shape member => fractional.queue shape (List.mem_of_mem_take member),
    List.forall_mem_append.mpr ⟨fractional.elements, fun element member => ?_⟩⟩
  obtain ⟨elements, isPart, member⟩ := List.mem_flatten.mp member
  rw [← List.map_uncurry_zip_eq_zipWith] at isPart
  obtain ⟨⟨shape, left⟩, isPair, rfl⟩ := List.mem_map.mp isPart
  have waited := fractional.queue shape (List.mem_of_mem_drop (List.of_mem_zip isPair).1)
  simp only [Function.uncurry, Queued.paint] at member
  split at member
  · exact absurd member List.not_mem_nil
  · obtain ⟨paint, isPaint, rfl⟩ := List.mem_map.mp member
    exact ⟨waited.opacity, waited.paints paint isPaint, waited.cover⟩

/-- Answering a call keeps all opacities fractions if the call tells of fractions. -/
theorem Fractional.visit (fractional : canvas.Fractional) {head : Head} {visit : Visit ℝ P}
    (told : (Call.visit head visit).Fractional) : (canvas.visit visit).Fractional := by
  have brush := fractional.brush
  cases visit with
  | layer | group => exact fractional
  | picture picture => exact ⟨brush, fractional.saved, fractional.queue, fractional.elements⟩
  | transform transform =>
    exact (fractional.brushed ((brush.within _).faded (fraction_within _))).placed
  | parentTransform transform => exact fractional.brushed (brush.within _)
  | groupTransform group =>
    exact fractional.brushed ((brush.within _).faded (fraction_within _))
  | shape shape => exact fractional.draw _
  | fill fill =>
    have painted : (Paint.ofFill fill).Fractional := ⟨told, fraction_within _⟩
    exact fractional.brushed (brush.addPaint painted)
  | gradient gradient =>
    have painted : (Paint.gradient canvas.gradients.length gradient.opacity
        gradient.rule).Fractional := fraction_within _
    exact ⟨brush.addPaint painted, fractional.saved, fractional.queue, fractional.elements⟩
  | stroke stroke =>
    have painted : (Paint.ofStroke stroke).Fractional := ⟨told, fraction_within _⟩
    exact fractional.brushed (brush.addPaint painted)
  | trim window => exact fractional.applyTrim window
  | repeater repeater =>
    refine fractional.brushed { brush with copies := ?_ }
    rintro _ ⟨⟩
    exact instances_within told
  | flood flood =>
    refine fractional.brushed { brush with cover := ?_ }
    rintro _ ⟨⟩
    exact product_within told (clamped_within _)

/-- An answer to a call keeps opacities between zero and one. -/
theorem Fractional.answer (fractional : canvas.Fractional) {call : Call ℝ P}
    (told : call.Fractional) : (canvas.answer call).Fractional := by
  cases call with
  | save =>
    exact ⟨{ fractional.brush with }, List.forall_mem_cons.mpr ⟨fractional.brush, fractional.saved⟩,
      fractional.queue, fractional.elements⟩
  | restore =>
    simp only [Canvas.answer]
    split
    · exact fractional
    next brush saved isSaved =>
      have each := fractional.saved
      rw [isSaved] at each
      obtain ⟨first, others⟩ := List.forall_mem_cons.mp each
      exact ⟨first, others, fractional.queue, fractional.elements⟩
  | saveTrimming | restoreTrimming | setTrimming =>
    exact ⟨fractional.brush, fractional.saved, fractional.queue, fractional.elements⟩
  | visit head visit => exact fractional.visit told

/-- Any list of calls that tell of fractions is answered with fractions. -/
theorem of_calls_fractional {calls : List (Call ℝ P)} (told : ∀ call ∈ calls, call.Fractional) :
    (ofCalls calls).Fractional := by
  have answered (canvas : Canvas ℝ P) (fractional : canvas.Fractional) :
      (canvas.answerAll calls).Fractional := by
    induction calls generalizing canvas with
    | nil => exact fractional
    | cons call rest inductionHypothesis =>
      obtain ⟨own, others⟩ := List.forall_mem_cons.mp told
      exact inductionHypothesis others _ (fractional.answer own)
  exact answered empty empty_fractional

end Canvas

end Answer

/-! ## The calls for a scene -/

namespace Call

section Brackets

variable (head : Head) (trim : Option (Trim.Window ℝ))

/-- Entering a trim tells of no opacity. -/
theorem enter_fractional : ∀ call ∈ (enterTrim trim : List (Call ℝ P)), call.Fractional := by
  cases trim <;> simp [enterTrim, Call.Fractional]

/-- Neither does applying one. -/
theorem apply_fractional : ∀ call ∈ (applyTrim head trim : List (Call ℝ P)), call.Fractional := by
  cases trim with
  | none => simp [applyTrim]
  | some window =>
    simp only [applyTrim]
    split <;> simp [Call.Fractional]

/-- What is told around the effects and the children of a layer has no opacity that is stored. -/
theorem layer_fractional (followed : List (LayerEntry ℝ)) (content : Scene.Layer ℝ)
    {effects children : List (Call ℝ P)} (beside : ∀ call ∈ effects, call.Fractional)
    (below : ∀ call ∈ children, call.Fractional) :
    ∀ call ∈ layer followed head content effects children, call.Fractional := by
  have around : ∀ call ∈ (parents followed head content : List (Call ℝ P)), call.Fractional :=
    List.forall_mem_map.mpr fun _ _ => trivial
  have own : (visit head (ofLayerKind content.kind) : Call ℝ P).Fractional := by
    cases content.kind <;> trivial
  unfold layer
  split
  · simp only [List.forall_mem_append, List.forall_mem_cons]
    exact ⟨⟨⟨⟨⟨⟨⟨⟨trivial, by simp⟩, beside⟩, around⟩, own, trivial, trivial, by simp⟩,
      enter_fractional _⟩, below⟩, apply_fractional _ _⟩, trivial, trivial, by simp⟩
  · simp

/-- The calls around the contents of a group tell of no opacity. -/
theorem group_fractional (content : Scene.Group ℝ) {children : List (Call ℝ P)}
    (below : ∀ call ∈ children, call.Fractional) :
    ∀ call ∈ group head content children, call.Fractional := by
  have applied : ∀ call ∈ (if content.ownsTrim then applyTrim head content.trim else [] :
      List (Call ℝ P)), call.Fractional := by
    split
    · exact apply_fractional _ _
    · simp
  simp only [group, List.forall_mem_append, List.forall_mem_cons]
  exact ⟨⟨⟨⟨⟨⟨trivial, trivial, by simp⟩, enter_fractional _⟩, trivial, by simp⟩, below⟩, applied⟩,
    trivial, trivial, by simp⟩

end Brackets

variable [Scalar P] [Widen ℝ P] [Measure P]

/-- The call for a node that holds nothing tells about opacities between zero and one, if the colour of
the node has one. -/
theorem leaf_fractional {kind : Kind ℝ P} (coherent : kind.Coherent) (normal : kind.Normal)
    (head : Head) : ∀ call ∈ leaf head kind, call.Fractional := by
  cases kind with
  | fill fill => exact List.forall_mem_singleton.mpr (normal _ rfl).value.alpha
  | stroke stroke => exact List.forall_mem_singleton.mpr (normal _ rfl).value.alpha
  | flood flood => exact List.forall_mem_singleton.mpr (normal _ rfl).value.alpha
  | repeater repeater =>
    refine List.forall_mem_singleton.mpr fun opacity stored => ?_
    rw [show repeater.step.opacities = _ from coherent] at stored
    obtain ⟨index, -, rfl⟩ := Array.mem_map.mp stored
    exact fraction_within _
  | transform _ | shape _ | gradient _ => exact List.forall_mem_singleton.mpr trivial
  | _ => simp [leaf]

/-- The calls for a tree with normal colours tell about opacities between zero and one. -/
theorem of_node_fractional (followed : List (LayerEntry ℝ)) {node : Node ℝ P}
    (each : ∀ listed ∈ node.listing, listed.kind.Coherent ∧ listed.kind.Normal) :
    ∀ call ∈ ofNode followed node, call.Fractional := by
  induction node with
  | mk head kind effects children effectsTold childrenTold =>
    obtain ⟨⟨coherent, normal⟩, inEffects, inChildren⟩ := Node.forall_listing.mp each
    cases hidden : head.hidden with
    | true => simp [of_hidden _ _ _ _ _ hidden]
    | false =>
      have below : ∀ call ∈ children.flatMap (ofNode followed), call.Fractional :=
        List.forall_mem_flatMap.mpr fun child member =>
          childrenTold child member (inChildren child member)
      have beside : ∀ call ∈ effects.flatMap (ofNode followed), call.Fractional :=
        List.forall_mem_flatMap.mpr fun effect member =>
          effectsTold effect member (inEffects effect member)
      rw [of_shown _ _ _ _ _ hidden]
      cases kind with
      | root =>
        exact List.forall_mem_append.mpr ⟨List.forall_mem_append.mpr
          ⟨List.forall_mem_singleton.mpr trivial, below⟩, List.forall_mem_singleton.mpr trivial⟩
      | layer content => exact layer_fractional head followed content beside below
      | group content => exact group_fractional head content below
      | effectGroup => exact below
      | _ => exact leaf_fractional coherent normal head

end Call

end Render

namespace Svg

open Render

variable {P : Type} [Scalar P] [Written ℝ] [Written P]

/-- The attributes of elements that hold an opacity. -/
def opacityNames : List String := ["fill-opacity", "stroke-opacity", "opacity"]

/-- Whether an attribute holds an opacity between zero and one, if it is for an opacity. -/
def Attribute.Fractional (part : Attribute) : Prop :=
  part.name ∈ opacityNames → ∃ x ∈ Set.Icc (0 : ℝ) 1, part.value = Written.text x

namespace Attribute.Fractional

/-- An attribute of another name need not hold a fraction. -/
theorem other {name value : String} (unlike : name ∉ opacityNames) :
    (⟨name, value⟩ : Attribute).Fractional := fun named => absurd named unlike

/-- A fraction that is written out as a number makes an attribute that holds one. -/
theorem number {name : String} {x : ℝ} (inside : x ∈ Set.Icc (0 : ℝ) 1) :
    (⟨name, Written.text x⟩ : Attribute).Fractional := fun _ => ⟨x, inside, rfl⟩

end Attribute.Fractional

omit [Written P] in
/-- The opacity that is written for a paint is that of its colour, its own and that of the element. -/
theorem paint_attributes_fractional {opacity : ℝ} {cover : Option (Rgba ℝ)} {paint : Paint ℝ}
    (inside : opacity ∈ Set.Icc (0 : ℝ) 1) (fractional : paint.Fractional)
    (covering : ∀ color ∈ cover, color.alpha ∈ Set.Icc (0 : ℝ) 1) :
    ∀ part ∈ paintAttributes opacity cover paint, part.Fractional := by
  cases paint with
  | fill color own rule =>
    have shown : (cover.getD color).alpha ∈ Set.Icc (0 : ℝ) 1 := by
      cases cover with
      | none => exact fractional.1
      | some top => exact covering top rfl
    simp only [paintAttributes, List.forall_mem_cons]
    exact ⟨.other (by decide), .number (product_within (product_within shown fractional.2) inside),
      .other (by decide), by simp⟩
  | gradient index own rule =>
    simp only [paintAttributes, List.forall_mem_cons]
    exact ⟨.other (by decide), .number (product_within fractional inside), .other (by decide),
      by simp⟩
  | stroke color own width cap join miterLimit dashes =>
    have dashed : ∀ part ∈ (dashes.map dashAttributes).getD [], part.Fractional := by
      cases dashes with
      | none => simp
      | some dashes =>
        exact List.forall_mem_cons.mpr
          ⟨.other (by decide), List.forall_mem_singleton.mpr (.other (by decide))⟩
    simp only [paintAttributes, List.forall_mem_append, List.forall_mem_cons]
    exact ⟨⟨.other (by decide), .other (by decide),
      .number (product_within (product_within fractional.1 fractional.2) inside), .other (by decide),
      .other (by decide), .other (by decide), .other (by decide), by simp⟩, dashed⟩

/-- Where opacities are between zero and one, such numbers are written. -/
theorem element_attributes_fractional {element : Element ℝ P} (fractional : element.Fractional) :
    ∀ part ∈ (elementTag element).attributes, part.Fractional := by
  cases element with
  | picture picture placed opacity =>
    simp only [elementTag, Tag.attributes, List.forall_mem_cons]
    exact ⟨.other (by decide), .other (by decide), .other (by decide), .other (by decide),
      .number fractional, by simp⟩
  | outline path placed opacity paint cover =>
    have place : ∀ part ∈ placeAttributes placed, part.Fractional := by
      unfold placeAttributes
      split
      · simp
      · exact List.forall_mem_singleton.mpr (.other (by decide))
    simp only [elementTag, Tag.attributes, List.forall_mem_append, List.forall_mem_cons]
    exact ⟨⟨⟨.other (by decide), by simp⟩, place⟩,
      paint_attributes_fractional fractional.1 fractional.2.1 fractional.2.2⟩

end Svg

namespace Render

section Drawings

variable {P : Type} [Scalar P] [Widen ℝ P] [Measure P] [Written ℝ] [Written P]

/-- A fill, a stroke or a flood that is made from a colour in bytes, up to 255 or up to one, has at all
times red, green and blue between zero and one, and an opacity up to 255. The opacity is up to one as
well if all colours that are authored can be told, and a colour that does not change has to be told for
that. Where all colours of a document can be told, they are between zero and one in every state of its
scene, and so is every opacity that is written for it. -/
theorem colors_normalized :
    (∀ (property : Document.Color ℝ) (kind : Kind ℝ P) (times : List ℝ), Bytewise property →
      kind.MadeWith property → ∃ track,
        (times.foldl (fun kind time => kind.updateLeaf time none) kind).colors? = some track ∧
        Normal 255 track.value ∧ (property.content.Each Told → Normal 1 track.value) ∧
        ∀ color, property.content = .fixed color → (Normal 1 track.value ↔ Told color)) ∧
    ∀ (settings : Trim.Settings) (document : Document ℝ) (scene : Scene ℝ P),
      (∀ node ∈ (Tree.ofDocument settings document : Tree ℝ P).root.listing,
        node.kind.colors? ≠ none → node.kind.MadeTold) →
      Reachable settings document scene →
        (∀ node ∈ scene.tree.root.listing, ∀ track ∈ node.kind.colors?, Normal 1 track.value) ∧
        ∀ tag ∈ Svg.bodyTags (Canvas.ofCalls scene.calls), ∀ part ∈ tag.attributes,
          part.name ∈ Svg.opacityNames →
            ∃ x ∈ Set.Icc (0 : ℝ) 1, part.value = Written.text x := by
  constructor
  · intro property kind times authored made
    obtain ⟨bytes, told⟩ := authored.normal times
    exact ⟨_, made.colors_later times, bytes, told, fun color isFixed =>
      authored.fixed_normal isFixed times⟩
  · intro settings document scene built reachable
    have normal := Reachable.normal built reachable
    have fractional : (Canvas.ofCalls scene.calls).Fractional :=
      Canvas.of_calls_fractional (Call.of_node_fractional _ fun node listed =>
        ⟨reachable.fits.coherent node listed, normal node listed⟩)
    refine ⟨fun node listed track isColors => (normal node listed track isColors).value, ?_⟩
    exact List.forall_mem_map.mpr fun element drawn =>
      Svg.element_attributes_fractional (fractional.elements element drawn)

end Drawings

/-! ## A square that turns green, and a black one -/

noncomputable section Colored

/-- Opaque red that turns into opaque green, both in bytes. -/
def warmColor : Document.Color ℝ :=
  let byte (value : Nat) : ℝ := Scalar.ofNat value
  { content := .keyed
      [{ time := byte 0, start := some ⟨byte 255, byte 0, byte 0, byte 255⟩ },
        { time := byte 10, start := some ⟨byte 0, byte 255, byte 0, byte 255⟩ }] }

/-- A square that is filled with it. -/
def warmSquare : Document ℝ :=
  let keyed (x y : Nat) : Json.Value := .object [("k", .list [.natural x, .natural y])]
  let square : Json.Value := .object [("s", keyed 4 4), ("ty", .text "rc")]
  let key (time : Nat) (components : List Nat) : Json.Value :=
    .object [("s", .list (components.map .natural)), ("t", .natural time)]
  let fill : Json.Value := .object [("c", .object [("k", .list
    [key 0 [255, 0, 0, 255], key 10 [0, 255, 0, 255]])]), ("ty", .text "fl")]
  { frameRate := 30
    inPoint := 0
    outPoint := 60
    layers := [.object [("op", .natural 60), ("shapes", .list [square, fill]), ("ty", .natural 4)]] }

/-- The scene of the warm square, spelled out as a tree. -/
theorem warm_root : ∃ layer, (Tree.ofDocument {} warmSquare : Tree ℝ ℝ).root = Build.rootWith
    [.mk { id := 1, name := "" } (.layer layer) []
      [.mk { id := 3, name := "" } (.fill (Fill.ofDocument { color := warmColor })) [] [],
        .mk { id := 2, name := "" } (.shape (square none)) [] []]] :=
  ⟨_, rfl⟩

/-- The colour of the warm square is authored in bytes. -/
theorem warm_authored : Bytewise warmColor ∧ warmColor.content.Each Told := by
  have byte {value : ℕ} (small : value ≤ 255) :
      (Scalar.ofNat value : ℝ) ∈ Set.Icc (0 : ℝ) 255 :=
    ⟨Nat.cast_nonneg value, (Nat.cast_le_ofNat (α := ℝ)).mpr small⟩
  have bright : (1 : ℝ) < (Scalar.ofNat 255 : ℝ) := by
    change (1 : ℝ) < (255 : ℕ)
    norm_num
  refine ⟨⟨?_, ?_⟩, ?_⟩
  all_goals
    refine List.forall_mem_cons.mpr ⟨⟨?_, by simp⟩, List.forall_mem_singleton.mpr ⟨?_, by simp⟩⟩
  all_goals rintro _ ⟨⟩
  · exact ⟨byte le_rfl, byte (by omega), byte (by omega), byte le_rfl⟩
  · exact ⟨byte (by omega), byte le_rfl, byte (by omega), byte le_rfl⟩
  · exact .inr (.inl bright)
  · exact .inr (.inr (.inl bright))

/-- Half way from red to green the colour is between zero and one, and so are the opacities that are
written for the square. -/
theorem warm_square_normalized :
    let fill : Kind ℝ ℝ := .fill (Fill.ofDocument { color := warmColor })
    let scene : Scene ℝ ℝ := (Scene.ofDocument {} warmSquare).update 5
    (∃ track, (fill.updateLeaf 5 none).colors? = some track ∧ Normal 1 track.value) ∧
      (∀ node ∈ scene.tree.root.listing, ∀ track ∈ node.kind.colors?, Normal 1 track.value) ∧
      ∀ tag ∈ Svg.bodyTags (Canvas.ofCalls scene.calls), ∀ part ∈ tag.attributes,
        part.name ∈ Svg.opacityNames →
          ∃ x ∈ Set.Icc (0 : ℝ) 1, part.value = Written.text x := by
  intro fill scene
  obtain ⟨authored, told⟩ := warm_authored
  have made : fill.MadeWith warmColor := .fill { color := warmColor } rfl
  have built : ∀ node ∈ (Tree.ofDocument {} warmSquare : Tree ℝ ℝ).root.listing,
      node.kind.colors? ≠ none → node.kind.MadeTold := by
    obtain ⟨layer, root⟩ := warm_root
    rw [root]
    intro node listed
    simp only [Build.rootWith, Node.listing, Node.listingAll, List.append_nil, List.nil_append,
      List.cons_append, List.mem_cons, List.not_mem_nil, or_false] at listed
    obtain rfl | rfl | rfl | rfl := listed
    · exact fun colored => absurd rfl colored
    · exact fun colored => absurd rfl colored
    · exact fun _ => ⟨warmColor, made, authored, told⟩
    · exact fun colored => absurd rfl colored
  obtain ⟨track, isColors, -, normal, -⟩ :=
    colors_normalized.1 warmColor fill [5] authored made
  exact ⟨⟨track, isColors, normal told⟩,
    colors_normalized.2 {} warmSquare scene built (Reachable.loaded.updated _ 5)⟩

/-- Opaque black in bytes. -/
def solidBlack : Document.Color ℝ := { content := .fixed ⟨0, 0, 0, 255⟩ }

/-- Nothing but its opacity tells that it is in bytes, so it is not brought down, and an opacity of 255
is written. -/
theorem black_beyond_one :
    let fill : Fill ℝ := (Fill.ofDocument { color := solidBlack }).update 0
    Bytewise solidBlack ∧ ¬ Normal 1 fill.color.value ∧
      ⟨"fill-opacity", Written.text (255 : ℝ)⟩ ∈
        Svg.paintAttributes (1 : ℝ) none (Paint.ofFill fill) := by
  intro fill
  have authored : Bytewise solidBlack := by
    refine ⟨⟨?_, ?_, ?_, ?_⟩, trivial⟩ <;> norm_num [solidBlack]
  have value : fill.color.value = ⟨0, 0, 0, 255⟩ := by
    refine (normal_color_exact _).trans (if_neg ?_)
    norm_num
  refine ⟨authored, fun normal => ?_, ?_⟩
  · have above := normal.alpha.2
    rw [value] at above
    norm_num at above
  · have whole : fill.opacity = 1 := Scalar.Fractions.finish.trans Exact.numeral_one
    have product : (255 : ℝ) = fill.color.value.alpha * fill.opacity * 1 := by
      rw [value, whole]
      norm_num
    rw [product]
    simp [Svg.paintAttributes, Paint.ofFill]

end Colored

end Render

end VectorMotion
