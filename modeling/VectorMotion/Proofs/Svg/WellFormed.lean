import Mathlib.Data.List.Nodup
import VectorMotion.CommandLine
import VectorMotion.Proofs.Render.Images
import VectorMotion.Proofs.Svg.Reader

/-!
# Well-formed documents

The tags of a drawing make a document: one element around others, each of which ends where its
contents end, and no tag gives an attribute twice. Whether the text of the drawing reads back as
these tags is a matter of the values of the attributes. All of them are plain but one: numbers are
digits with signs and points, colours, maps and outlines are made of numbers, and the words for caps
and rules are fixed. The one that comes from the animation as it stands there is the name of the
asset of an image.

So a drawing is read back exactly if the assets of all its images have plain names. It does not
matter what else is named in an animation, for no other text of it is written.
-/

namespace VectorMotion.Svg

open Scene Render Decimal

section Texts

/-- Texts that are plain make a plain text together. -/
theorem plain_append {first second : String} (front : Plain first) (rest : Plain second) :
    Plain (first ++ second) := by
  intro c member
  rw [String.toList_append, List.mem_append] at member
  exact member.elim (front c) (rest c)

/-- Plain texts with blanks between them. -/
theorem plain_intercalate {texts : List String} (each : ∀ text ∈ texts, Plain text) :
    Plain (" ".intercalate texts) := by
  induction texts with
  | nil => decide
  | cons first rest inductionHypothesis =>
    obtain ⟨front, others⟩ := List.forall_mem_cons.1 each
    cases rest with
    | nil => simpa using front
    | cons second rest =>
      rw [String.intercalate_cons_cons]
      exact plain_append (plain_append front (by decide)) (inductionHypothesis others)

/-- A digit stands for itself. -/
theorem plain_digit {c : Char} (digit : c.isDigit = true) : isPlain c = true := by
  have bounds : 48 ≤ c.toNat ∧ c.toNat ≤ 57 := by
    simpa [Char.isDigit, UInt32.le_iff_toNat_le] using digit
  have differs : ∀ d : Char, d.toNat < 48 ∨ 57 < d.toNat → (c != d) = true := by
    intro d outside
    rw [bne_iff_ne]
    rintro rfl
    omega
  have quote := differs '\x22' (by decide)
  have opening := differs '<' (by decide)
  have reference := differs '&' (by decide)
  have printed : 0x20 ≤ c.toNat := by omega
  have assigned : c.toNat ≠ 0xFFFE ∧ c.toNat ≠ 0xFFFF := by omega
  simp [isPlain, quote, opening, reference, printed, assigned]

/-- Digits are plain. -/
theorem plain_repr (n : Nat) : Plain (Nat.repr n) := by
  intro c member
  rw [Nat.toList_repr] at member
  exact plain_digit (Nat.isDigit_of_mem_toDigits (by decide) (by decide) member)

/-- Digits in place are digits, zeros and a point. -/
theorem plain_positional (value : Digits) : Plain value.positional := by
  have digits : ∀ c ∈ (Nat.repr value.digits).toList, isPlain c = true := plain_repr value.digits
  have zeros : ∀ n, ∀ c ∈ List.replicate n '0', isPlain c = true := by
    intro n c member
    rw [List.eq_of_mem_replicate member]
    decide
  have point : isPlain '.' = true := by decide
  have zero : isPlain '0' = true := by decide
  unfold Plain Digits.positional
  rw [String.toList_ofList]
  split
  · exact List.forall_mem_append.2 ⟨digits, zeros _⟩
  · split
    · exact List.forall_mem_append.2
        ⟨fun c member => digits c (List.mem_of_mem_take member),
          List.forall_mem_cons.2 ⟨point, fun c member => digits c (List.mem_of_mem_drop member)⟩⟩
    · exact List.forall_mem_append.2
        ⟨List.forall_mem_cons.2 ⟨zero, List.forall_mem_cons.2 ⟨point, zeros _⟩⟩, digits⟩

/-- A number is written in plain characters, also an infinite one and one that is no number. -/
theorem plain_stored (layout : Binary.Layout) (value : Binary) :
    Plain (Format.plain.text layout value) := by
  unfold Format.text signed
  have magnitude := plain_positional
    (if value.mantissa == 0 then ⟨0, 0⟩ else shortest Format.plain.tie layout value)
  split
  · exact plain_append (by decide) magnitude
  · exact magnitude

/-- A number is written plainly, whether it is finite or not. -/
theorem plain_number (layout : Binary.Layout) (stored : Option Binary) (odd below : Prop)
    [Decidable odd] [Decidable below] :
    Plain (match stored with
      | some value => Format.plain.text layout value
      | none => if odd then "NaN" else if below then "-inf" else "inf") := by
  cases stored with
  | some value => exact plain_stored layout value
  | none =>
    by_cases isOdd : odd
    · simp only [isOdd, ↓reduceIte]
      decide
    · by_cases isBelow : below <;> simp only [isOdd, isBelow, ↓reduceIte] <;> decide

/-- Scalars whose texts are plain. -/
class WrittenPlain (S : Type) [Written S] : Prop where
  plain : ∀ x : S, Plain (Written.text x)

instance : WrittenPlain Float := ⟨fun x => plain_number .double (Binary.ofDouble? x) _ _⟩

instance : WrittenPlain Float32 := ⟨fun x => plain_number .single (Binary.ofSingle? x) _ _⟩

/-- A colour is written in plain characters. -/
theorem plain_color {S : Type} [Scalar S] (color : Rgba S) : Plain (colorText color) := by
  have number : ∀ n : Nat, Plain (toString n) := plain_repr
  have comma : Plain "," := by decide
  have red := plain_append (by decide : Plain "rgb(") (number (channel color.red))
  have green := plain_append (plain_append red comma) (number (channel color.green))
  have blue := plain_append (plain_append green comma) (number (channel color.blue))
  exact plain_append blue (by decide : Plain ")")

/-- So is the rule of a fill. -/
theorem plain_rule (rule : FillRule) : Plain (ruleText rule) := by cases rule <;> decide

/-- So is the cap of a stroke. -/
theorem plain_cap (cap : LineCap) : Plain (capText cap) := by cases cap <;> decide

/-- So is the join of a stroke. -/
theorem plain_join (join : LineJoin) : Plain (joinText join) := by cases join <;> decide

/-- The identifier of a gradient is plain. -/
theorem plain_gradient (index : Nat) : Plain (gradientId index) :=
  plain_append (by decide) (plain_repr index)

end Texts

/-- Whether the values of attributes are plain. -/
def AllPlain (attributes : List Attribute) : Prop := ∀ part ∈ attributes, Plain part.value

/-- An empty list of attributes is plain. -/
@[simp] theorem all_plain_nil : AllPlain [] := fun _ member => absurd member List.not_mem_nil

/-- Attributes are plain if the first is and the others are. -/
@[simp] theorem all_plain_cons (first : Attribute) (rest : List Attribute) :
    AllPlain (first :: rest) ↔ Plain first.value ∧ AllPlain rest := List.forall_mem_cons

/-- Attributes are plain together if both parts are. -/
@[simp] theorem all_plain_append (front rest : List Attribute) :
    AllPlain (front ++ rest) ↔ AllPlain front ∧ AllPlain rest := List.forall_mem_append

/-- A tag whose names can be read, and which gives no attribute twice. -/
structure Tag.Formed (tag : Tag) : Prop extends tag.Named where
  distinct : (tag.attributes.map Attribute.name).Nodup

/-- Elements one behind the other. An element is a tag of its own, or its contents between the two
tags of its name. -/
inductive Elements : List Tag → Prop where
  | none : Elements []
  | whole (name : String) (attributes : List Attribute) {rest : List Tag}
      (behind : Elements rest) : Elements (.whole name attributes :: rest)
  | around (name : String) (attributes : List Attribute) {contents rest : List Tag}
      (inside : Elements contents) (behind : Elements rest) :
      Elements (.start name attributes :: (contents ++ .finish name :: rest))

/-- Well-formed tags that make one element. -/
structure IsDocument (tags : List Tag) : Prop where
  formed : ∀ tag ∈ tags, tag.Formed
  single : ∃ name attributes contents,
    tags = .start name attributes :: (contents ++ [.finish name]) ∧ Elements contents

/-- Whole elements followed by whole elements are whole elements. -/
theorem Elements.append {tags more : List Tag} (front : Elements tags) (rest : Elements more) :
    Elements (tags ++ more) := by
  induction front with
  | none => exact rest
  | whole name attributes behind inductionHypothesis =>
    exact .whole name attributes inductionHypothesis
  | around name attributes inside behind _ inductionHypothesis =>
    simpa using Elements.around name attributes inside inductionHypothesis

/-- Elements without contents. -/
theorem Elements.of_whole {tags : List Tag}
    (each : ∀ tag ∈ tags, ∃ name attributes, tag = .whole name attributes) : Elements tags := by
  induction tags with
  | nil => exact .none
  | cons first rest inductionHypothesis =>
    obtain ⟨⟨name, attributes, rfl⟩, others⟩ := List.forall_mem_cons.1 each
    exact .whole name attributes (inductionHypothesis others)

/-- A tag whose attributes are some of fixed ones. -/
theorem Tag.formed_of_labels {tag : Tag} (labels : List String) (name : IsName tag.name)
    (names : ∀ label ∈ labels, IsName label) (distinct : labels.Nodup)
    (some : (tag.attributes.map Attribute.name).Sublist labels) : tag.Formed where
  name := name
  labels := fun part member => names part.name (some.mem (List.mem_map_of_mem member))
  distinct := some.nodup distinct

section Values

variable {S P : Type} [Written S] [Written P] [WrittenPlain S] [WrittenPlain P]

/-- A point is written in plain characters. -/
theorem plain_point (p : Vec2 P) : Plain (pointText p) :=
  plain_append (plain_append (WrittenPlain.plain p.x) (by decide)) (WrittenPlain.plain p.y)

/-- So is a path. -/
theorem plain_path (path : Path P) : Plain (pathText path) := by
  refine plain_intercalate fun text member => ?_
  obtain ⟨element, -, rfl⟩ := List.mem_map.1 member
  have point : ∀ {front : String} (p : Vec2 P), Plain front → Plain (front ++ pointText p) :=
    fun p plain => plain_append plain (plain_point p)
  have blank : ∀ {front : String}, Plain front → Plain (front ++ " ") :=
    fun plain => plain_append plain (by decide)
  cases element with
  | move p => exact point p (by decide)
  | line p => exact point p (by decide)
  | quad c p => exact point p (blank (point c (by decide)))
  | cubic c c' p => exact point p (blank (point c' (blank (point c (by decide)))))
  | close => exact (by decide : Plain "Z")

/-- The attributes of dashes are plain. -/
theorem dashes_plain (dashes : DashPattern S) : AllPlain (dashAttributes dashes) := by
  have lengths : Plain (" ".intercalate (dashes.lengths.map Written.text)) := by
    refine plain_intercalate fun text member => ?_
    obtain ⟨length, -, rfl⟩ := List.mem_map.1 member
    exact WrittenPlain.plain length
  simp only [dashAttributes, all_plain_cons, all_plain_nil, and_true]
  exact ⟨lengths, WrittenPlain.plain dashes.offset⟩

variable [Scalar S] [Scalar P]

/-- A transform is written in plain characters. -/
theorem plain_map (placed : Affine P) : Plain (mapText placed) := by
  refine plain_append (plain_append (by decide) (plain_intercalate ?_)) (by decide)
  intro text member
  obtain ⟨x, -, rfl⟩ := List.mem_map.1 member
  exact WrittenPlain.plain (coefficient x)

/-- The attribute of a place is plain, if there is one. -/
theorem place_plain (placed : Affine P) : AllPlain (placeAttributes placed) := by
  unfold placeAttributes
  split
  · exact all_plain_nil
  · simpa using plain_map placed

/-- The attributes of a paint are plain. -/
theorem paint_plain (opacity : S) (cover : Option (Rgba S)) (paint : Paint S) :
    AllPlain (paintAttributes opacity cover paint) := by
  cases paint with
  | fill color paintOpacity rule =>
    simp only [paintAttributes, all_plain_cons, all_plain_nil, and_true]
    exact ⟨plain_color _, WrittenPlain.plain _, plain_rule rule⟩
  | gradient index paintOpacity rule =>
    have reference : Plain ("url(#" ++ gradientId index ++ ")") :=
      plain_append (plain_append (by decide) (plain_gradient index)) (by decide)
    simp only [paintAttributes, all_plain_cons, all_plain_nil, and_true]
    exact ⟨reference, WrittenPlain.plain _, plain_rule rule⟩
  | stroke color paintOpacity width cap join miterLimit dashes =>
    have unfilled : Plain "none" := by decide
    have dashed : AllPlain ((dashes.map dashAttributes).getD []) := by
      cases dashes with
      | none => exact all_plain_nil
      | some dashes => exact dashes_plain dashes
    simp only [paintAttributes, all_plain_append, all_plain_cons, all_plain_nil, and_true]
    exact ⟨⟨unfilled, plain_color color, WrittenPlain.plain _, WrittenPlain.plain width,
      plain_cap cap, plain_join join, WrittenPlain.plain miterLimit⟩, dashed⟩

/-- Of the values that an element is written with only the name of an asset need not be plain. -/
theorem element_plain_iff (element : Element S P) :
    AllPlain (elementTag element).attributes ↔
      ∀ picture ∈ element.picture?, Plain picture.asset := by
  cases element with
  | outline path placed opacity paint cover =>
    have plain : AllPlain ([⟨"d", pathText path⟩] ++ placeAttributes placed ++
        paintAttributes opacity cover paint) := by
      simp only [all_plain_append, all_plain_cons, all_plain_nil, and_true]
      exact ⟨⟨plain_path path, place_plain placed⟩, paint_plain opacity cover paint⟩
    exact iff_of_true plain (by simp [Element.picture?])
  | picture picture placed opacity =>
    have others : Plain (Written.text picture.width) ∧ Plain (Written.text picture.height) ∧
        Plain (mapText placed) ∧ Plain (Written.text opacity) :=
      ⟨WrittenPlain.plain _, WrittenPlain.plain _, plain_map placed, WrittenPlain.plain _⟩
    simp [elementTag, Tag.attributes, Element.picture?, others]

/-- The attributes of a gradient stop are plain. -/
theorem stop_plain (stop : GradientStop S) : AllPlain (stopTag stop).attributes := by
  simp only [stopTag, Tag.attributes, all_plain_cons, all_plain_nil, and_true]
  exact ⟨WrittenPlain.plain _, plain_color _, WrittenPlain.plain _⟩

/-- The attributes of the geometry of a gradient are plain. -/
theorem geometry_plain (gradient : GradientFill S) : AllPlain (gradientGeometry gradient) := by
  unfold gradientGeometry
  split
  · simp only [all_plain_cons, all_plain_nil, and_true]
    exact ⟨WrittenPlain.plain _, WrittenPlain.plain _, WrittenPlain.plain _, WrittenPlain.plain _⟩
  · simp only [all_plain_cons, all_plain_nil, and_true]
    exact ⟨WrittenPlain.plain _, WrittenPlain.plain _, WrittenPlain.plain _, WrittenPlain.plain _,
      WrittenPlain.plain _⟩

/-- All attributes of the definitions of gradients are plain. -/
theorem gradients_plain (index : Nat) (gradients : List (GradientFill S)) :
    ∀ tag ∈ gradientsFrom index gradients, AllPlain tag.attributes := by
  induction gradients generalizing index with
  | nil => simp [gradientsFrom]
  | cons gradient rest inductionHypothesis =>
    have start : AllPlain ([⟨"id", gradientId index⟩, ⟨"gradientUnits", "userSpaceOnUse"⟩] ++
        gradientGeometry gradient) := by
      simp only [all_plain_append, all_plain_cons, all_plain_nil, and_true]
      exact ⟨⟨plain_gradient index, by decide⟩, geometry_plain gradient⟩
    have stops : ∀ tag ∈ gradient.stops.map stopTag, AllPlain tag.attributes := by
      intro tag member
      obtain ⟨stop, -, rfl⟩ := List.mem_map.1 member
      exact stop_plain stop
    have own : ∀ tag ∈ gradientTags index gradient, AllPlain tag.attributes := by
      unfold gradientTags
      refine List.forall_mem_append.2 ⟨List.forall_mem_append.2 ⟨?_, stops⟩, ?_⟩
      · exact List.forall_mem_singleton.2 start
      · exact List.forall_mem_singleton.2 all_plain_nil
    exact List.forall_mem_append.2 ⟨own, inductionHypothesis (index + 1)⟩

end Values

section Tags

variable {S P : Type} [Scalar S] [Scalar P] [Written S] [Written P]

/-- A paint uses each of the names of its attributes at most once, in a fixed order. -/
theorem paint_labels (opacity : S) (cover : Option (Rgba S)) (paint : Paint S) :
    ((paintAttributes opacity cover paint).map Attribute.name).Sublist
      ["fill", "fill-opacity", "fill-rule", "stroke", "stroke-opacity", "stroke-width",
        "stroke-linecap", "stroke-linejoin", "stroke-miterlimit", "stroke-dasharray",
        "stroke-dashoffset"] := by
  cases paint with
  | fill color paintOpacity rule =>
    change ["fill", "fill-opacity", "fill-rule"].Sublist _
    decide
  | gradient index paintOpacity rule =>
    change ["fill", "fill-opacity", "fill-rule"].Sublist _
    decide
  | stroke color paintOpacity width cap join miterLimit dashes =>
    cases dashes with
    | none =>
      change ["fill", "stroke", "stroke-opacity", "stroke-width", "stroke-linecap",
        "stroke-linejoin", "stroke-miterlimit"].Sublist _
      decide
    | some dashes =>
      change ["fill", "stroke", "stroke-opacity", "stroke-width", "stroke-linecap",
        "stroke-linejoin", "stroke-miterlimit", "stroke-dasharray", "stroke-dashoffset"].Sublist _
      decide

/-- The tag of an element that is drawn is formed as it should be. -/
theorem element_formed (element : Element S P) : (elementTag element).Formed := by
  cases element with
  | outline path placed opacity paint cover =>
    have placing : ((placeAttributes placed).map Attribute.name).Sublist ["transform"] := by
      unfold placeAttributes
      split
      · exact List.nil_sublist _
      · exact List.Sublist.refl _
    refine Tag.formed_of_labels (["d"] ++ ["transform"] ++
      ["fill", "fill-opacity", "fill-rule", "stroke", "stroke-opacity", "stroke-width",
        "stroke-linecap", "stroke-linejoin", "stroke-miterlimit", "stroke-dasharray",
        "stroke-dashoffset"]) (by decide : IsName "path") (by decide) (by decide) ?_
    simp only [elementTag, Tag.attributes, List.map_append, List.map_cons, List.map_nil]
    exact ((List.Sublist.refl _).append placing).append (paint_labels opacity cover paint)
  | picture picture placed opacity =>
    exact Tag.formed_of_labels ["xlink:href", "width", "height", "transform", "opacity"]
      (by decide : IsName "image") (by decide) (by decide) (List.Sublist.refl _)

/-- An image with a name that ends its own tag is written as two images, with whatever stands
between them in the name. -/
theorem picture_text (image : Picture S) (placed : Affine P) (opacity : S) (front behind : String)
    (between : List Tag)
    (asset : image.asset =
      front ++ "\"/>" ++ String.join (between.map Tag.text) ++ "<image xlink:href=\"" ++ behind) :
    (elementTag (.picture image placed opacity)).text =
      String.join ((.whole "image" [⟨"xlink:href", front⟩] ::
        (between ++ [elementTag (.picture { image with asset := behind } placed opacity)])).map
          Tag.text) := by
  rw [← String.toList_inj]
  simp [elementTag, Tag.text, Tag.attributesText, Attribute.text, asset]

/-- So is the tag of a gradient stop. -/
theorem stop_formed (stop : GradientStop S) : (stopTag stop).Formed :=
  Tag.formed_of_labels ["offset", "stop-color", "stop-opacity"] (by decide : IsName "stop")
    (by decide) (by decide) (List.Sublist.refl _)

/-- The end of an element gives no attributes. -/
theorem finish_formed {name : String} (isName : IsName name) : (Tag.finish name).Formed :=
  Tag.formed_of_labels [] isName (by simp) List.nodup_nil (List.Sublist.refl _)

/-- The kinds of gradients have names that tags may have. -/
theorem gradient_name (kind : GradientKind) : IsName (gradientName kind) := by
  cases kind <;> decide

/-- The tags of all gradients are formed as they should be. -/
theorem gradients_formed (index : Nat) (gradients : List (GradientFill S)) :
    ∀ tag ∈ gradientsFrom index gradients, tag.Formed := by
  induction gradients generalizing index with
  | nil => simp [gradientsFrom]
  | cons gradient rest inductionHypothesis =>
    have geometry : ((gradientGeometry gradient).map Attribute.name).Sublist
        ["x1", "y1", "x2", "y2", "cx", "cy", "r", "fx", "fy"] := by
      unfold gradientGeometry
      split
      · change ["x1", "y1", "x2", "y2"].Sublist _
        decide
      · change ["cx", "cy", "r", "fx", "fy"].Sublist _
        decide
    have start : (Tag.start (gradientName gradient.kind)
        ([⟨"id", gradientId index⟩, ⟨"gradientUnits", "userSpaceOnUse"⟩] ++
          gradientGeometry gradient)).Formed := by
      refine Tag.formed_of_labels (["id", "gradientUnits"] ++
        ["x1", "y1", "x2", "y2", "cx", "cy", "r", "fx", "fy"]) (gradient_name gradient.kind)
        (by decide) (by decide) ?_
      simp only [Tag.attributes, List.map_append, List.map_cons, List.map_nil]
      exact (List.Sublist.refl _).append geometry
    have stops : ∀ tag ∈ gradient.stops.map stopTag, tag.Formed :=
      List.forall_mem_map.2 fun stop _ => stop_formed stop
    have finish := finish_formed (gradient_name gradient.kind)
    have own : ∀ tag ∈ gradientTags index gradient, tag.Formed :=
      List.forall_mem_append.2 ⟨List.forall_mem_append.2
        ⟨List.forall_mem_singleton.2 start, stops⟩, List.forall_mem_singleton.2 finish⟩
    exact List.forall_mem_append.2 ⟨own, inductionHypothesis (index + 1)⟩

/-- The definitions of gradients are whole elements. -/
theorem gradients_elements (index : Nat) (gradients : List (GradientFill S)) :
    Elements (gradientsFrom index gradients) := by
  induction gradients generalizing index with
  | nil => exact .none
  | cons gradient rest inductionHypothesis =>
    have stops : Elements (gradient.stops.map stopTag) :=
      .of_whole (List.forall_mem_map.2 fun stop _ => ⟨_, _, rfl⟩)
    have own := Elements.around (gradientName gradient.kind)
      ([⟨"id", gradientId index⟩, ⟨"gradientUnits", "userSpaceOnUse"⟩] ++
        gradientGeometry gradient) stops (inductionHypothesis (index + 1))
    simpa [gradientsFrom, gradientTags] using own

/-- What is drawn stands within one tag, which gives its size. -/
theorem document_tags (width height : Nat) :
    ∃ attributes, AllPlain attributes ∧ (Tag.start "svg" attributes).Formed ∧
      ∀ canvas : Canvas S P, documentTags width height canvas =
        .start "svg" attributes ::
          (definitionTags canvas ++ bodyTags canvas ++ [.finish "svg"]) := by
  refine ⟨_, ?_, ?_, fun _ => rfl⟩
  · have spaces : Plain "http://www.w3.org/2000/svg" ∧ Plain "http://www.w3.org/1999/xlink" := by
      decide
    have size : Plain (toString width) ∧ Plain (toString height) :=
      ⟨plain_repr width, plain_repr height⟩
    have box : Plain s!"0 0 {width} {height}" :=
      plain_append (plain_append (plain_append (by decide : Plain "0 0 ") size.1)
        (by decide : Plain " ")) size.2
    simp only [all_plain_cons, all_plain_nil, and_true]
    exact ⟨spaces.1, spaces.2, size.1, size.2, box⟩
  · exact Tag.formed_of_labels ["xmlns", "xmlns:xlink", "width", "height", "viewBox"]
      (by decide : IsName "svg") (by decide) (by decide) (List.Sublist.refl _)

/-- The tags of a drawing make a document, whatever is drawn. -/
theorem document_formed (width height : Nat) (canvas : Canvas S P) :
    IsDocument (documentTags width height canvas) := by
  have svg : IsName "svg" ∧ IsName "defs" := by decide
  obtain ⟨attributes, -, start, tags⟩ := document_tags (S := S) (P := P) width height
  have definitions : (∀ tag ∈ definitionTags canvas, tag.Formed) ∧
      Elements (definitionTags canvas) := by
    unfold definitionTags
    split
    · exact ⟨by simp, .none⟩
    · have opening : (Tag.start "defs" []).Formed :=
        Tag.formed_of_labels [] svg.2 (by simp) List.nodup_nil (List.Sublist.refl _)
      refine ⟨List.forall_mem_append.2 ⟨List.forall_mem_append.2
        ⟨List.forall_mem_singleton.2 opening, gradients_formed 0 canvas.gradients⟩,
          List.forall_mem_singleton.2 (finish_formed svg.2)⟩, ?_⟩
      exact .around "defs" [] (gradients_elements 0 canvas.gradients) .none
  have body : (∀ tag ∈ bodyTags canvas, tag.Formed) ∧ Elements (bodyTags canvas) := by
    refine ⟨List.forall_mem_map.2 fun element _ => element_formed element,
      .of_whole (List.forall_mem_map.2 fun element _ => ?_)⟩
    cases element <;> exact ⟨_, _, rfl⟩
  refine ⟨?_, "svg", attributes, _, tags canvas, definitions.2.append body.2⟩
  rw [tags]
  exact List.forall_mem_cons.2 ⟨start, List.forall_mem_append.2
    ⟨List.forall_mem_append.2 ⟨definitions.1, body.1⟩,
      List.forall_mem_singleton.2 (finish_formed svg.1)⟩⟩

variable [WrittenPlain S] [WrittenPlain P]

/-- All values of a document are plain exactly if the names of the assets of its images are. -/
theorem document_plain_iff (width height : Nat) (canvas : Canvas S P) :
    (∀ tag ∈ documentTags width height canvas, AllPlain tag.attributes) ↔
      ∀ picture ∈ canvas.pictures, Plain picture.asset := by
  obtain ⟨attributes, start, -, tags⟩ := document_tags (S := S) (P := P) width height
  have definitions : ∀ tag ∈ definitionTags canvas, AllPlain tag.attributes := by
    unfold definitionTags
    split
    · simp
    · exact List.forall_mem_append.2 ⟨List.forall_mem_append.2
        ⟨List.forall_mem_singleton.2 all_plain_nil, gradients_plain 0 canvas.gradients⟩,
          List.forall_mem_singleton.2 all_plain_nil⟩
  have finish : AllPlain (Tag.finish "svg").attributes := all_plain_nil
  have elements : (∀ tag ∈ bodyTags canvas, AllPlain tag.attributes) ↔
      ∀ picture ∈ canvas.pictures, Plain picture.asset := by
    simp only [bodyTags, List.forall_mem_map, element_plain_iff]
    constructor
    · intro each picture member
      obtain ⟨element, inside, shown⟩ := List.mem_filterMap.1 member
      exact each element inside picture shown
    · intro each element inside picture shown
      exact each picture (List.mem_filterMap.2 ⟨element, inside, shown⟩)
  rw [tags, List.forall_mem_cons, List.forall_mem_append, List.forall_mem_append,
    List.forall_mem_singleton]
  exact ⟨fun plain => elements.1 plain.2.1.2, fun plain =>
    ⟨start, ⟨definitions, elements.2 plain⟩, finish⟩⟩

/-- The text of a drawing reads back as its tags exactly if the assets of its images have plain
names. -/
theorem document_read_iff (width height : Nat) (canvas : Canvas S P) :
    Tag.read? (document width height canvas) = some (documentTags width height canvas) ↔
      ∀ picture ∈ canvas.pictures, Plain picture.asset := by
  have formed := (document_formed width height canvas).formed
  exact (Tag.read_lines_iff fun tag member => (formed tag member).toNamed).trans
    (document_plain_iff width height canvas)

/-- An image whose name goes on as markup does adds tags to a drawing: its text is read as that of a
drawing with a plain name in this place, and with any other tags in front of the image. -/
theorem document_spliced (width height : Nat) (canvas : Canvas S P) (image : Picture S)
    (placed : Affine P) (opacity : S) (before after : List (Element S P)) (front behind : String)
    (added : List Tag) (here : canvas.elements = before ++ .picture image placed opacity :: after)
    (asset : image.asset =
      front ++ "\"/>" ++ String.join (added.map Tag.text) ++ "<image xlink:href=\"" ++ behind)
    (frontPlain : Plain front) (addedSound : ∀ tag ∈ added, tag.Named ∧ AllPlain tag.attributes) :
    let shown := Element.picture { image with asset := behind } placed opacity
    let plainly := { canvas with elements := before ++ shown :: after }
    (∀ picture ∈ plainly.pictures, Plain picture.asset) →
      ∃ start rest, documentTags width height plainly = start ++ elementTag shown :: rest ∧
        Tag.read? (document width height canvas) =
          some (start ++ .whole "image" [⟨"xlink:href", front⟩] :: added ++
            elementTag shown :: rest) := by
  intro shown plainly plain
  obtain ⟨attributes, -, -, tags⟩ := document_tags (S := S) (P := P) width height
  let start := .start "svg" attributes :: (definitionTags canvas ++ before.map elementTag)
  let rest := after.map elementTag ++ [.finish "svg"]
  have read : documentTags width height plainly = start ++ elementTag shown :: rest := by
    rw [tags plainly]
    simp [bodyTags, definitionTags, plainly, start, rest]
  have written : documentTags width height canvas =
      start ++ elementTag (.picture image placed opacity) :: rest := by
    rw [tags canvas]
    simp [bodyTags, here, start, rest]
  have sound : ∀ tag ∈ documentTags width height plainly, tag.Named ∧ AllPlain tag.attributes :=
    fun tag member => ⟨((document_formed width height plainly).formed tag member).toNamed,
      (document_plain_iff width height plainly).2 plain tag member⟩
  rw [read] at sound
  obtain ⟨startSound, behindSound⟩ := List.forall_mem_append.1 sound
  obtain ⟨shownSound, restSound⟩ := List.forall_mem_cons.1 behindSound
  have opened : (Tag.whole "image" [⟨"xlink:href", front⟩]).Formed :=
    Tag.formed_of_labels ["xlink:href"] (by decide : IsName "image") (by decide) (by decide)
      (List.Sublist.refl _)
  have parts : ∀ tag ∈ .whole "image" [⟨"xlink:href", front⟩] :: (added ++ [elementTag shown]),
      tag.Named ∧ AllPlain tag.attributes := by
    refine List.forall_mem_cons.2 ⟨⟨opened.toNamed, ?_⟩, List.forall_mem_append.2
      ⟨addedSound, List.forall_mem_singleton.2 shownSound⟩⟩
    exact List.forall_mem_singleton.2 frontPlain
  have all := List.forall_mem_append.2 ⟨List.forall_mem_append.2 ⟨startSound, parts⟩, restSound⟩
  have spliced := Tag.read_spliced (picture_text image placed opacity front behind added asset)
    (fun tag member => (all tag member).1) fun tag member => (all tag member).2
  refine ⟨start, rest, read, ?_⟩
  rw [document, written, spliced]
  simp [shown]

end Tags

/-- Whatever a document says, the tags of a drawing of it make one well-formed element. Its text
reads back as these tags exactly if every image in the drawing has an asset with a plain name; and
each of these names is one that a layer of the document gives as it stands. -/
theorem drawing_read_iff {settings : Trim.Settings} {document : Document Float32}
    {scene : Scene Float32 Float} (reachable : Reachable settings document scene) :
    let canvas := Canvas.ofCalls scene.calls
    let tags := documentTags scene.info.width scene.info.height canvas
    IsDocument tags ∧
      (Tag.read? (CommandLine.drawing scene) = some tags ↔
        ∀ image ∈ canvas.pictures, Plain image.asset) ∧
      ∀ image ∈ canvas.pictures, Authored document.layers image := by
  intro canvas tags
  refine ⟨document_formed _ _ canvas, ?_, drawing_images reachable⟩
  exact document_read_iff scene.info.width scene.info.height canvas

/-- A document with one layer, which shows an image. -/
def imageLayer (asset : String) : Document Float32 :=
  { frameRate := 30
    inPoint := 0
    outPoint := 60
    width := 10
    height := 10
    layers :=
      [.object [("op", .natural 60), ("refId", .text asset), ("ty", .natural 2)]] }

/-- The scene of such a document as it is loaded. -/
def imageScene (asset : String) : Scene Float32 Float := Scene.ofDocument {} (imageLayer asset)

/-- An asset with a plain name is read back as it is written. -/
theorem image_read_back :
    let canvas := Canvas.ofCalls (imageScene "photo").calls
    Tag.read? (CommandLine.drawing (imageScene "photo")) = some (documentTags 10 10 canvas) ∧
      canvas.pictures.map Picture.asset = ["photo"] := by
  intro canvas
  have reachable : Reachable {} (imageLayer "photo") (imageScene "photo") := .loaded
  obtain ⟨-, read, -⟩ := drawing_read_iff reachable
  exact ⟨read.2 (by decide +kernel), by decide +kernel⟩

/-- The name of an asset is written as it is. With a quote in it the text does not read back; and
one that goes on as markup does is read with a tag that nobody has meant to write. -/
theorem image_breaks_out :
    let quoted := imageScene "a\"b"
    let longer := imageScene "a\"/><script/><image xlink:href=\"b"
    Tag.read? (CommandLine.drawing quoted) ≠
        some (documentTags 10 10 (Canvas.ofCalls quoted.calls)) ∧
      ∃ tags, Tag.read? (CommandLine.drawing longer) = some tags ∧ .whole "script" [] ∈ tags ∧
        .whole "script" [] ∉ documentTags 10 10 (Canvas.ofCalls longer.calls) := by
  intro quoted longer
  constructor
  · intro read
    have plain := (document_read_iff 10 10 (Canvas.ofCalls quoted.calls)).1 read
    have named : ∀ name ∈ (Canvas.ofCalls quoted.calls).pictures.map Picture.asset, Plain name :=
      List.forall_mem_map.2 plain
    have pictures : (Canvas.ofCalls quoted.calls).pictures.map Picture.asset = ["a\"b"] := by
      decide +kernel
    rw [pictures] at named
    exact absurd (named "a\"b" List.mem_cons_self) (by decide)
  · let canvas := Canvas.ofCalls longer.calls
    have elements : canvas.elements.map (fun element => element.picture?.map Picture.asset) =
        [some "a\"/><script/><image xlink:href=\"b"] := by decide +kernel
    obtain ⟨element, same, shown⟩ := List.map_eq_singleton_iff.1 elements
    obtain ⟨image, found, asset⟩ := Option.map_eq_some_iff.1 shown
    have names : (documentTags 10 10 canvas).map Tag.name = ["svg", "image", "svg"] := by
      decide +kernel
    have unmeant : .whole "script" [] ∉ documentTags 10 10 canvas := fun member => by
      have name := List.mem_map_of_mem (f := Tag.name) member
      rw [names] at name
      exact absurd name (by decide)
    cases element with
    | outline path placed opacity paint cover => cases found
    | picture picture placed opacity =>
      cases found
      have script : (Tag.whole "script" []).Named := ⟨by decide, by simp [Tag.attributes]⟩
      obtain ⟨start, rest, -, read⟩ := document_spliced 10 10 canvas image placed opacity [] []
        "a" "b" [.whole "script" []] same asset (by decide)
        (List.forall_mem_singleton.2 ⟨script, all_plain_nil⟩)
        (by simp [Canvas.pictures, Element.picture?]; decide)
      exact ⟨_, read, by simp, unmeant⟩

end VectorMotion.Svg
