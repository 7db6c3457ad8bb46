import VectorMotion.Proofs.Render.Gradients
import VectorMotion.Proofs.Svg.WellFormed

/-!
# References to gradients

A fill refers to a gradient by the name that the definition of the gradient bears. Names are made of
the numbers of gradients and of nothing else, so the definitions bear different names, and what a
fill refers to is defined once: by the tags of the gradient that was in force for the shapes that
are filled.

This is so of the tags of every drawing. Of its text it is so as far as the text reads back as these
tags. The name of an asset may go on as markup does, and then what it adds can refer to anything.
-/

namespace VectorMotion.Svg

open Scene Render

/-- The value that refers to a definition by its name. -/
def reference (id : String) : String := "url(#" ++ id ++ ")"

/-- Whether a tag fills what it shows with a definition. -/
def Tag.FillsWith (tag : Tag) (id : String) : Prop := ⟨"fill", reference id⟩ ∈ tag.attributes

/-- The names that tags bear. -/
def identifiers (tags : List Tag) : List String :=
  tags.flatMap fun tag => tag.attributes.filterMap fun part =>
    if part.name = "id" then some part.value else none

/-- The identifiers of tags stand in the order of the tags. -/
theorem identifiers_append (front rest : List Tag) :
    identifiers (front ++ rest) = identifiers front ++ identifiers rest :=
  List.flatMap_append

/-- No two gradients have the same identifier. -/
theorem gradient_id_injective : Function.Injective gradientId := by
  intro first second same
  have texts := congrArg String.toList same
  simp only [gradientId, String.toList_append] at texts
  exact Nat.repr_inj.mp (String.toList_inj.mp (List.append_cancel_left texts))

/-- A reference names one identifier only. -/
theorem reference_injective : Function.Injective reference := by
  intro first second same
  have texts := congrArg String.toList same
  simp only [reference, String.toList_append] at texts
  exact String.toList_inj.mp (List.append_cancel_left (List.append_cancel_right texts))

/-- A text that begins otherwise is no reference. -/
theorem no_reference {text : String} (id : String) (front : text.toList.head? ≠ some 'u') :
    reference id ≠ text := by
  intro same
  apply front
  rw [← same]
  simp [reference]

variable {S P : Type} [Scalar S] [Written S]

/-! ## Definitions -/

/-- The tags of a gradient bear one name, that of its number. -/
theorem gradient_identifiers (index : Nat) (gradient : GradientFill S) :
    identifiers (gradientTags index gradient) = [gradientId index] := by
  have geometry : (gradientGeometry gradient).filterMap
      (fun part => if part.name = "id" then some part.value else none) = [] := by
    unfold gradientGeometry
    split <;> simp
  have stops : identifiers (gradient.stops.map stopTag) = [] := by
    simp [identifiers, stopTag, Tag.attributes]
  have parts : identifiers (gradientTags index gradient) =
      [gradientId index] ++ (gradientGeometry gradient).filterMap
        (fun part => if part.name = "id" then some part.value else none) ++
        identifiers (gradient.stops.map stopTag) := by
    simp [identifiers, gradientTags, Tag.attributes]
  rw [parts, geometry, stops]
  rfl

/-- The identifiers of the gradients count up from the first number. -/
theorem gradients_identifiers (first : Nat) (gradients : List (GradientFill S)) :
    identifiers (gradientsFrom first gradients) =
      (List.range' first gradients.length).map gradientId := by
  induction gradients generalizing first with
  | nil => rfl
  | cons gradient rest inductionHypothesis =>
    have parts : identifiers (gradientsFrom first (gradient :: rest)) =
        identifiers (gradientTags first gradient) ++
          identifiers (gradientsFrom (first + 1) rest) := by
      simp [identifiers, gradientsFrom]
    rw [parts, gradient_identifiers, inductionHypothesis]
    rfl

/-- The definitions of a drawing bear the names of the numbers of its gradients, and no others. -/
theorem definition_identifiers (canvas : Canvas S P) :
    identifiers (definitionTags canvas) =
      (List.range canvas.gradients.length).map gradientId := by
  rw [List.range_eq_range', ← gradients_identifiers]
  unfold definitionTags
  split
  case isTrue none =>
    rw [List.isEmpty_iff.mp none]
    rfl
  case isFalse => simp [identifiers, Tag.attributes]

/-- The tags of every gradient stand together among those of all gradients. -/
theorem gradients_tags (first index : Nat) (gradients : List (GradientFill S))
    (gradient : GradientFill S) (found : gradients[index]? = some gradient) :
    gradientTags (first + index) gradient <:+: gradientsFrom first gradients := by
  induction gradients generalizing first index with
  | nil => cases found
  | cons head rest inductionHypothesis =>
    cases index with
    | zero =>
      obtain rfl := Option.some.inj found
      exact (List.prefix_append _ _).isInfix
    | succ index =>
      have later := inductionHypothesis (first + 1) index found
      rw [Nat.add_right_comm] at later
      exact later.trans (List.suffix_append _ _).isInfix

/-- A gradient of a drawing is defined by its tags. -/
theorem gradient_defined (canvas : Canvas S P) (index : Nat) (gradient : GradientFill S)
    (found : canvas.gradients[index]? = some gradient) :
    gradientTags index gradient <:+: definitionTags canvas := by
  have some : canvas.gradients.isEmpty = false := by
    cases none : canvas.gradients with
    | nil =>
      rw [none] at found
      cases found
    | cons => rfl
  have tags := gradients_tags 0 index canvas.gradients gradient found
  rw [Nat.zero_add] at tags
  rw [definitionTags, some]
  exact tags.trans ⟨[.start "defs" []], [.finish "defs"], rfl⟩

/-! ## Fills -/

variable [Scalar P] [Written P]

/-- An element is filled with a definition exactly if its paint refers to the gradient that the
definition is named after. -/
theorem element_fills_iff (element : Element S P) (id : String) :
    (elementTag element).FillsWith id ↔ ∃ index, element.gradient? = some index ∧
      id = gradientId index := by
  cases element with
  | picture picture placed opacity =>
    simp [Tag.FillsWith, elementTag, Tag.attributes, Element.gradient?]
  | outline path placed opacity paint cover =>
    have placing : ⟨"fill", reference id⟩ ∉ placeAttributes placed := by
      unfold placeAttributes
      split <;> simp
    have painted : (elementTag (.outline path placed opacity paint cover : Element S P)).FillsWith
        id ↔ ⟨"fill", reference id⟩ ∈ paintAttributes opacity cover paint := by
      simp [Tag.FillsWith, elementTag, Tag.attributes, placing]
    rw [painted]
    cases paint with
    | fill color paintOpacity rule =>
      have colored : reference id ≠ colorText (cover.getD color) := no_reference id (by
        rw [colorText, show toString "rgb(" = "rgb(" from rfl]
        simp)
      simp [paintAttributes, Element.gradient?, Paint.gradient?, colored]
    | gradient index paintOpacity rule =>
      have named : reference id = "url(#" ++ gradientId index ++ ")" ↔ id = gradientId index :=
        reference_injective.eq_iff
      simp [paintAttributes, Element.gradient?, Paint.gradient?, named]
    | stroke color paintOpacity width cap join miterLimit dashes =>
      have unfilled : reference id ≠ "none" := no_reference id (by decide)
      cases dashes <;>
        simp [paintAttributes, dashAttributes, Element.gradient?, Paint.gradient?, unfilled]

/-- No name is borne by what is painted. -/
theorem body_identifiers (canvas : Canvas S P) : identifiers (bodyTags canvas) = [] := by
  have unnamed (element : Element S P) :
      ∀ part ∈ (elementTag element).attributes, part.name ≠ "id" := by
    cases element with
    | picture => simp [elementTag, Tag.attributes]
    | outline path placed opacity paint cover =>
      intro part member
      simp only [elementTag, Tag.attributes, List.mem_append, List.mem_singleton] at member
      rcases member with (rfl | placing) | painting
      · simp
      · unfold placeAttributes at placing
        split at placing
        · cases placing
        · simp [List.mem_singleton.mp placing]
      · have label := (paint_labels opacity cover paint).mem (List.mem_map_of_mem painting)
        intro named
        rw [named] at label
        exact absurd label (by decide)
  rw [identifiers, List.flatMap_eq_nil_iff]
  intro tag member
  obtain ⟨element, -, rfl⟩ := List.mem_map.mp member
  exact List.filterMap_eq_nil_iff.mpr fun part inside => if_neg (unnamed element part inside)

/-! ## Whole drawings -/

/-- The names in a drawing are those of the numbers of its gradients. -/
theorem document_identifiers (width height : Nat) (canvas : Canvas S P) :
    identifiers (documentTags width height canvas) =
      (List.range canvas.gradients.length).map gradientId := by
  have parts : identifiers (documentTags width height canvas) =
      identifiers (definitionTags canvas) ++ identifiers (bodyTags canvas) := by
    simp [identifiers, documentTags, Tag.attributes]
  rw [parts, definition_identifiers, body_identifiers, List.append_nil]

variable [Widen S P] [Measure P] [WrittenPlain S] [WrittenPlain P]

/-- No name is borne twice in a drawing. Of each coat of the drawing, a fill that refers to a name
refers to exactly one tag; the coat shows shapes, and for each of them the name is that of the
definition of a gradient that was in force when the shape was drawn, whether the shape has waited
for a trim or not. All this can be read off the text of the drawing, if the assets of its images
have plain names and only then. -/
theorem gradients_referenced (scene : Scene S P) :
    let calls := scene.calls
    let canvas := Canvas.ofCalls calls
    let tags := documentTags scene.info.width scene.info.height canvas
    (Tag.read? (CommandLine.drawing scene) = some tags ↔
      ∀ image ∈ canvas.pictures, Plain image.asset) ∧
    (identifiers tags).Nodup ∧
    canvas.elements = (Coat.ofCalls calls).flatMap Coat.elements ∧
    ∀ coat ∈ Coat.ofCalls calls, ∀ element ∈ coat.elements, ∀ id,
      (elementTag element).FillsWith id →
        (identifiers tags).count id = 1 ∧ coat.drawn ≠ [] ∧
        ∀ number ∈ coat.drawn, Call.IsShape calls number ∧ ∃ start gradient,
          Call.InForce calls start number gradient ∧
          id = gradientId (Call.gradientNumber calls start) ∧
          gradientTags (Call.gradientNumber calls start) gradient <:+: definitionTags canvas := by
  intro calls canvas tags
  have named : identifiers tags = (List.range canvas.gradients.length).map gradientId :=
    document_identifiers _ _ canvas
  have distinct : (identifiers tags).Nodup := by
    rw [named]
    exact List.nodup_range.map gradient_id_injective
  refine ⟨document_read_iff _ _ canvas, distinct, ?_, ?_⟩
  · obtain ⟨marked, painted⟩ := drawing_painted calls calls.length (Nat.le_refl _)
    rw [List.take_length] at marked painted
    rw [← painted.elements, marked.canvas, List.take_length]
  · intro coat member element inside id fills
    obtain ⟨index, refers, rfl⟩ := (element_fills_iff element id).mp fills
    obtain ⟨shows, sources⟩ := gradients_in_force calls coat member element inside index refers
    refine ⟨?_, shows, fun number drawn => ?_⟩
    · obtain ⟨number, drawn⟩ := List.exists_mem_of_ne_nil _ shows
      obtain ⟨-, start, gradient, -, -, found⟩ := sources number drawn
      apply List.count_eq_one_of_mem distinct
      rw [named]
      exact List.mem_map_of_mem (List.mem_range.mpr (List.getElem?_eq_some_iff.mp found).1)
    · obtain ⟨isShape, start, gradient, inForce, rfl, found⟩ := sources number drawn
      exact ⟨isShape, start, gradient, inForce, rfl, gradient_defined canvas _ gradient found⟩

/-- A layer with an ellipse under a gradient, which waits for the trim of the layer. -/
def tintedLayer : Document Float :=
  let points (x y : Nat) : Json.Value := .object [("k", .list [.natural x, .natural y])]
  { frameRate := 30
    inPoint := 0
    outPoint := 60
    width := 10
    height := 10
    layers :=
      [.object [("op", .natural 60),
        ("shapes", .list [.object [("s", points 4 4), ("ty", .text "el")],
          .object [("e", points 4 0), ("ty", .text "gf")], .object [("ty", .text "tm")]]),
        ("ty", .natural 4)]] }

/-- The trim paints the ellipse with the gradient, which is defined once. -/
theorem tinted_layer_referenced :
    let scene : Scene Float Float := Scene.ofDocument {} tintedLayer
    let canvas := Canvas.ofCalls scene.calls
    ∃ coat ∈ Coat.ofCalls scene.calls, ∃ element ∈ coat.elements,
      (elementTag element).FillsWith "gradient-0" ∧
        (identifiers (documentTags 10 10 canvas)).count "gradient-0" = 1 ∧
        ∃ number ∈ coat.drawn, ∃ start gradient,
          Call.InForce scene.calls start number gradient := by
  intro scene canvas
  have coats : (Coat.ofCalls scene.calls).map
      (fun coat => (coat.drawn, coat.elements.map Element.gradient?)) = [([7], [some 0])] := by
    decide +kernel
  obtain ⟨coat, all, pair⟩ := List.map_eq_singleton_iff.mp coats
  obtain ⟨drawn, painted⟩ := Prod.mk.inj pair
  obtain ⟨element, elements, refers⟩ := List.map_eq_singleton_iff.mp painted
  have member : coat ∈ Coat.ofCalls scene.calls := by simp [all]
  have inside : element ∈ coat.elements := by simp [elements]
  have fills : (elementTag element).FillsWith "gradient-0" :=
    (element_fills_iff element _).mpr ⟨0, refers, by decide⟩
  obtain ⟨-, -, -, sources⟩ := gradients_referenced scene
  obtain ⟨once, -, inForce⟩ := sources coat member element inside _ fills
  have shown : 7 ∈ coat.drawn := by simp [drawn]
  obtain ⟨-, start, gradient, holds, -, -⟩ := inForce 7 shown
  exact ⟨coat, member, element, inside, fills, once, 7, shown, start, gradient, holds⟩

/-- The name of an asset can add a fill to the text of a drawing that refers to a definition where
there is none. -/
theorem asset_dangles :
    ∃ tags, Tag.read? (CommandLine.drawing
        (imageScene "a\"/><path fill=\"url(#b)\"/><image xlink:href=\"c")) = some tags ∧
      (∃ tag ∈ tags, tag.FillsWith "b") ∧ identifiers tags = [] := by
  let scene := imageScene "a\"/><path fill=\"url(#b)\"/><image xlink:href=\"c"
  let canvas := Canvas.ofCalls scene.calls
  have elements : canvas.elements.map (fun element => element.picture?.map Picture.asset) =
      [some "a\"/><path fill=\"url(#b)\"/><image xlink:href=\"c"] := by decide +kernel
  have noGradients : canvas.gradients.length = 0 := by decide +kernel
  obtain ⟨element, same, shown⟩ := List.map_eq_singleton_iff.1 elements
  obtain ⟨image, found, asset⟩ := Option.map_eq_some_iff.1 shown
  cases element with
  | outline path placed opacity paint cover => cases found
  | picture picture placed opacity =>
    cases found
    let added : Tag := .whole "path" [⟨"fill", "url(#b)"⟩]
    have addedNamed : added.Named := ⟨by decide, by decide⟩
    have addedPlain : AllPlain added.attributes := by
      simp only [added, Tag.attributes, all_plain_cons, all_plain_nil, and_true]
      decide
    obtain ⟨start, rest, meant, read⟩ := document_spliced 10 10 canvas image placed opacity [] []
      "a" "c" [added] same asset (by decide)
      (List.forall_mem_singleton.2 ⟨addedNamed, addedPlain⟩)
      (by simp [Canvas.pictures, Element.picture?]; decide)
    refine ⟨_, read, ⟨added, by simp, by simp [added, Tag.FillsWith, Tag.attributes]; decide⟩, ?_⟩
    let shownTag :=
      elementTag (.picture { image with asset := "c" } placed opacity : Element _ Float)
    have names : identifiers start ++ identifiers (shownTag :: rest) = [] := by
      rw [← identifiers_append, ← meant, document_identifiers]
      exact congrArg (fun length => (List.range length).map gradientId) noGradients
    obtain ⟨before, behind⟩ := List.append_eq_nil_iff.mp names
    have between : identifiers [.whole "image" [⟨"xlink:href", "a"⟩], added] = [] := by
      simp [identifiers, added, Tag.attributes]
    rw [identifiers_append, identifiers_append, before, behind, between]
    rfl

end VectorMotion.Svg
