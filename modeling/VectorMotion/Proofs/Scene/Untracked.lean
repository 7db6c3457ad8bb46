import VectorMotion.Proofs.Scene.Numeric
import VectorMotion.Proofs.Scene.Overlooking

/-!
# Nodes that contents leave as they are

Two documents that differ in the contents of properties only give trees that differ in tracks only,
and in what is derived from tracks. Contents are put aside by blanking them, and tracks by putting
those in their place that nodes have where a document leaves its properties out. Then it is shown
that a document and the blanked one give the same nodes without their tracks, first for shapes, then
for layers in both rounds.

Contents may hold anything, objects with expressions too, for replacing these changes contents only.
-/

namespace VectorMotion.Scene

open Json Expression

variable {S P : Type} [Scalar S]

/-! ## Nodes without their tracks -/

/-- A position of the same form at the origin. -/
def Placement.untracked : Placement S → Placement S
  | unified _ => unified (.fixed Vec2.zero)
  | split .. => split (.fixed 0) (.fixed 0)

/-- A transform that does nothing, with its position in the same form. -/
def Transform.untracked (transform : Transform S) : Transform S :=
  { Transform.ofDocument {} with placement := transform.placement.untracked }

/-- A contour of the same sort without any measure. -/
def Contour.untracked : Contour S → Contour S
  | rectangle .. => ofRectangle {}
  | ellipse .. => ofEllipse {}
  | circle .. => ofCircle {}
  | freeForm _ => ofFreeForm {}

/-- An entry of a dash pattern without a length. -/
def DashEntry.untracked (entry : DashEntry S) : DashEntry S := { entry with length := .fixed 0 }

/-- A kind with the tracks that it has where a document leaves its properties out, and with what is
derived from such tracks. All else stays. -/
def Kind.untracked : Kind S P → Kind S P
  | layer content => .layer { content with transform := content.transform.untracked }
  | transform content =>
    .transform { GroupTransform.ofDocument {} with transform := content.transform.untracked }
  | shape content => .shape { content with contour := content.contour.untracked, path := [] }
  | fill content => .fill { Fill.ofDocument {} with rule := content.rule }
  | gradient content =>
    .gradient
      { GradientFill.ofDocument {} with
        kind := content.kind
        colorCount := content.colorCount
        rule := content.rule }
  | stroke content =>
    .stroke
      { Stroke.ofDocument {} with
        cap := content.cap
        join := content.join
        miterLimit := content.miterLimit
        dashes := content.dashes.map DashEntry.untracked }
  | trim content =>
    .trim (TrimPath.framed content.window.name content.window.mode (.fixed 0) (.fixed 100)
      (.fixed 0))
  | repeater content =>
    .repeater
      { Repeater.ofDocument {} with
        composite := content.composite
        step := { Step.ofDocument {} with transform := content.step.transform.untracked } }
  | slider _ => .slider (Slider.ofDocument .blank)
  | flood _ => .flood (Flood.ofDocument .blank)
  | root => .root
  | group content => .group content
  | effectGroup => .effectGroup

namespace Node

mutual
/-- A node without its tracks, and without those of the nodes below it. -/
def untracked : Node S P → Node S P
  | mk head kind effects children =>
    mk head kind.untracked (untrackedAll effects) (untrackedAll children)

/-- Nodes without their tracks. -/
def untrackedAll : List (Node S P) → List (Node S P)
  | [] => []
  | node :: rest => untracked node :: untrackedAll rest
end

/-- Nodes are freed of their tracks one by one. -/
theorem untrackedAll_map (nodes : List (Node S P)) : untrackedAll nodes = nodes.map untracked := by
  induction nodes with
  | nil => rfl
  | cons node rest inductionHypothesis => rw [untrackedAll, inductionHypothesis, List.map_cons]

end Node

/-- The word for a kind does not depend on tracks. -/
theorem Kind.untracked_word (kind : Kind S P) :
    Report.kindWord kind.untracked = Report.kindWord kind := by
  cases kind with
  | shape content =>
    obtain ⟨contour, _⟩ := content
    cases contour <;> rfl
  | _ => rfl

/-- Nodes that are the same without their tracks are alike. -/
theorem Node.Like.of_untracked {first second : Node S P}
    (same : first.untracked = second.untracked) : first.Like second := by
  induction first generalizing second with
  | mk head kind effects children effectsAlike childrenAlike =>
    obtain ⟨otherHead, other, others, contents⟩ := second
    obtain ⟨rfl, sameKind, sameEffects, sameChildren⟩ := Node.mk.inj same
    rw [untrackedAll_map, untrackedAll_map] at sameEffects sameChildren
    have all {nodes others : List (Node S P)}
        (each : ∀ node ∈ nodes, ∀ {other}, untracked node = untracked other → Like node other)
        (sameNodes : nodes.map untracked = others.map untracked) :
        List.Forall₂ Like nodes others := by
      have pairs : List.Forall₂ (fun node other => untracked node = untracked other)
          nodes others := by
        rw [← List.forall₂_map_right_iff, ← List.forall₂_map_left_iff, sameNodes]
        exact List.forall₂_refl _
      exact ((List.forall₂_and_left _ _).mpr ⟨each, pairs⟩).imp fun _ _ pair => pair.1 pair.2
    refine .mk _ ?_ (all effectsAlike sameEffects) (all childrenAlike sameChildren)
    rw [← kind.untracked_word, ← other.untracked_word, sameKind]

/-! ## Shapes -/

namespace Build

variable [Scalar P] [Widen S P] (settings : Trim.Settings)

/-- Apart from its tracks, a transform has nothing but the form of its position. -/
theorem same_forms {first second : Document.Transform S} (same : SameForms first second) :
    (Transform.ofDocument first).untracked = (Transform.ofDocument second).untracked := by
  obtain ⟨_, position, _, _, _, _, _⟩ := first
  obtain ⟨_, other, _, _, _, _, _⟩ := second
  cases position <;> cases other <;> first | rfl | cases same

/-- Apart from its tracks, an entry of a dash pattern has nothing but its role. -/
theorem same_dashes {dashes others : List (Document.Dash S)}
    (same : List.Forall₂ SameName dashes others) :
    (dashes.filterMap DashEntry.ofDocument).map DashEntry.untracked =
      (others.filterMap DashEntry.ofDocument).map DashEntry.untracked := by
  induction same with
  | nil => rfl
  | @cons dash other _ _ name _ inductionHypothesis =>
    have role : dash.name = other.name := name
    rw [List.filterMap_cons, List.filterMap_cons, DashEntry.ofDocument, DashEntry.ofDocument, role]
    cases DashRole.ofName other.name with
    | none => exact inductionHypothesis
    | some role => exact congrArg (List.cons _) inductionHypothesis

/-- Whatever its contents are, a shape has the same kind but for its tracks, or none. -/
theorem kinds_overlooked (name tag : String) (members : List (String × Value)) :
    Option.Rel (fun first second : Kind S P => first.untracked = second.untracked)
      (kindOf settings name tag (.object members))
      (kindOf settings name tag (.object (blankedMembers .shape members))) := by
  have record {R : Type} {title : String} {blank : R} {fields : List (Record.Field R)}
      {make : R → Kind S P} {alike : R → R → Prop}
      (each : ∀ field ∈ fields, FieldOverlooks .shape alike field) (start : alike blank blank)
      (same : ∀ first second, alike first second →
        (make first).untracked = (make second).untracked) :
      Option.Rel (fun first second => first.untracked = second.untracked)
        ((read? (Record.decode title blank fields) (.object members)).map make)
        ((read? (Record.decode title blank fields)
          (.object (blankedMembers .shape members))).map make) := by
    rw [read_standing, read_standing]
    exact rel_map (members_overlooked rfl title start each members) same
  unfold kindOf
  split
  case h_1 => exact .some rfl
  case h_2 =>
    refine record rectangle_fields_overlook rfl fun first second same => ?_
    simp only [Kind.untracked, Shape.ofContour, Contour.ofRectangle, Contour.untracked, same]
  case h_3 =>
    refine record ellipse_fields_overlook rfl fun first second same => ?_
    simp only [Kind.untracked, Shape.ofContour, Contour.ofEllipse, Contour.untracked, same]
  case h_4 =>
    refine record circle_fields_overlook rfl fun first second same => ?_
    simp only [Kind.untracked, Shape.ofContour, Contour.ofCircle, Contour.untracked, same]
  case h_5 =>
    refine record free_form_fields_overlook rfl fun first second same => ?_
    simp only [Kind.untracked, Shape.ofContour, Contour.ofFreeForm, Contour.untracked, same]
  case h_6 =>
    refine record fill_fields_overlook rfl fun first second same => ?_
    simp only [Kind.untracked, Fill.ofDocument, same]
  case h_7 =>
    refine record gradient_fields_overlook ⟨rfl, rfl, rfl⟩ fun first second same => ?_
    obtain ⟨kind, count, rule⟩ := same
    have colors : first.table.count = second.table.count := count
    simp only [Kind.untracked, GradientFill.ofDocument, kind, colors, rule]
  case h_8 =>
    refine record stroke_fields_overlook ⟨rfl, rfl, rfl, .nil⟩ fun first second same => ?_
    obtain ⟨cap, join, limit, dashes⟩ := same
    simp only [Kind.untracked, Stroke.ofDocument, cap, join, limit, same_dashes dashes]
  case h_9 =>
    refine record (transform_fields_overlook (fun _ => rfl) (by decide)) rfl
      fun first second same => ?_
    simp only [Kind.untracked, GroupTransform.ofDocument, GroupTransform.sheared, same_forms same]
  case h_10 =>
    refine record trim_fields_overlook rfl fun first second same => ?_
    simp only [Kind.untracked, TrimPath.ofDocument, TrimPath.framed, same]
  case h_11 =>
    refine record repeater_fields_overlook ⟨rfl, rfl⟩ fun first second same => ?_
    obtain ⟨composite, step⟩ := same
    have transforms := same_forms step
    simp only [Kind.untracked, Repeater.ofDocument, Repeater.faded, Step.fadeOver, Step.ofDocument,
      composite, transforms]
  case h_12 => exact .none

/-- A shape has the same head and kind, but for tracks, whatever its contents are. -/
theorem shape_heads_overlooked (members : List (String × Value)) (id : Nat) :
    Option.Rel (fun first second : Head × Kind S P => first.1 = second.1 ∧
        first.2.untracked = second.2.untracked)
      (shapeHead settings (.object members) id)
      (shapeHead settings (.object (blankedMembers .shape members)) id) := by
  have tag : ((Value.object (blankedMembers .shape members)).member? "ty").bind Value.text? =
      ((Value.object members).member? "ty").bind Value.text? :=
    blanked_members_text .shape members (by decide)
  simp only [shapeHead, Option.bind_eq_bind, ← Option.bind_assoc, tag, label_overlooked]
  refine rel_bind (rel_of_eq rfl) ?_
  rintro tag _ rfl
  refine rel_bind (rel_of_eq rfl) ?_
  rintro label _ rfl
  exact rel_bind (kinds_overlooked settings _ tag members) fun _ _ same => .some ⟨rfl, same⟩

/-- Two nodes that are the same without their tracks, and the same number after them. -/
def MadeSame (first second : Node S P × Nat) : Prop :=
  first.1.untracked = second.1.untracked ∧ first.2 = second.2

/-- Nodes that are the same without their tracks, and the same number after them. -/
def AllSame (first second : List (Node S P) × Nat) : Prop :=
  first.1.map Node.untracked = second.1.map Node.untracked ∧ first.2 = second.2

omit [Scalar P] [Widen S P] in
/-- The order of children does not depend on tracks. -/
theorem arranged_untracked (children : List (Node S P)) :
    (arranged children).map Node.untracked = arranged (children.map Node.untracked) := by
  have sort (node : Node S P) : node.untracked.kind.isTransform = node.kind.isTransform := by
    obtain ⟨head, kind, effects, children⟩ := node
    exact (Kind.same_word kind.untracked_word).1
  simp only [arranged, List.map_append, ← List.map_reverse, List.filter_map]
  simp only [Function.comp_def, sort]

/-- The items of a group are blanked one by one. -/
theorem items_of_blanked (members : List (String × Value)) :
    itemsOf (blankedMembers .shape members) = (itemsOf members).map (blanked .shape) := by
  have skipped (name : String) (value : Value) (rest : List (String × Value))
      (other : name ≠ itemsMember) : itemsOf ((name, value) :: rest) = itemsOf rest := by
    cases value <;> simp [itemsOf, other]
  induction members with
  | nil => rfl
  | cons member rest inductionHypothesis =>
    obtain ⟨name, value⟩ := member
    by_cases isItems : name = itemsMember
    · subst isItems
      have under : blankedMember .shape (itemsMember, value) = blanked .contents value := rfl
      rw [blanked_members_cons, under]
      cases value with
      | atom atom => exact inductionHypothesis
      | list items => simp [blanked, blanked_items, Slot.within, itemsOf]
      | object members => exact inductionHypothesis
    · rw [blanked_members_cons, skipped _ _ _ isItems, skipped _ _ _ isItems, inductionHypothesis]

/-- Shapes that are the same one by one are the same together. -/
theorem shapes_overlooked {items others : List Value}
    (each : List.Forall₂ (fun item other => ∀ next, Option.Rel (MadeSame (S := S) (P := P))
      (shape settings item next) (shape settings other next)) items others) (next : Nat) :
    AllSame (S := S) (P := P) (shapes settings items next) (shapes settings others next) := by
  induction each generalizing next with
  | nil => exact ⟨rfl, rfl⟩
  | @cons item other _ _ here _ inductionHypothesis =>
    rw [shapes, shapes]
    rcases rel_cases (here next) with
      ⟨none, noOther⟩ | ⟨⟨node, after⟩, ⟨counterpart, _⟩, made, otherMade, same, rfl⟩
    · simp only [none, noOther]
      exact inductionHypothesis next
    · obtain ⟨nodes, last⟩ := inductionHypothesis after
      simp only [made, otherMade]
      exact ⟨congrArg₂ List.cons same nodes, last⟩

/-- A shape is the same but for tracks, whatever its contents are and those of the shapes in it. -/
theorem shape_overlooked (value : Value) :
    (∀ next, Option.Rel (MadeSame (S := S) (P := P)) (shape settings value next)
        (shape settings (blanked .shape value) next)) ∧
      ∀ item ∈ listed value, ∀ next, Option.Rel (MadeSame (S := S) (P := P))
        (shape settings item next) (shape settings (blanked .shape item) next) := by
  induction value using Value.by_parts with
  | atom atom => exact ⟨fun next => .none, by simp [listed, Value.items?]⟩
  | list items inductionHypothesis =>
    exact ⟨fun next => .none, fun item among => (inductionHypothesis item among).1⟩
  | object members inductionHypothesis =>
    refine ⟨fun next => ?_, by simp [listed, Value.items?]⟩
    have items : AllSame (S := S) (P := P) (shapes settings (itemsOf members) (next + 1))
        (shapes settings (itemsOf (blankedMembers .shape members)) (next + 1)) := by
      rw [items_of_blanked]
      refine shapes_overlooked settings ?_ (next + 1)
      rw [List.forall₂_map_right_iff, List.forall₂_same]
      intro item among
      obtain ⟨member, isMember, inside⟩ := items_of_listed members item among
      exact (inductionHypothesis member isMember).2 item inside
    rw [blanked, shape_made, shape_made]
    refine rel_map (shape_heads_overlooked settings members next) ?_
    rintro ⟨head, kind⟩ ⟨_, other⟩ ⟨rfl, same⟩
    have group : kind.isGroup = other.isGroup := by
      rw [← (Kind.same_word kind.untracked_word).2.1, same,
        (Kind.same_word other.untracked_word).2.1]
    simp only [group]
    split
    · refine ⟨?_, items.2⟩
      rw [Node.untracked, Node.untracked, Node.untrackedAll_map, Node.untrackedAll_map,
        Node.untrackedAll_map, arranged_untracked, arranged_untracked, items.1, same]
    · exact ⟨by rw [Node.untracked, Node.untracked, same], rfl⟩

end Build

/-! ## Effects -/

/-- The word for the kind of an effect tells all but its tracks. -/
theorem Kind.untracked_effect {kind other : Kind S P} (isEffect : kind.place = .effect)
    (word : Report.kindWord kind = Report.kindWord other) : kind.untracked = other.untracked := by
  cases kind with
  | slider | flood | effectGroup =>
    cases other with
    | shape content =>
      obtain ⟨contour, _⟩ := content
      cases contour <;> simp [Report.kindWord, Report.contourWord] at word
    | _ => first | rfl | simp [Report.kindWord] at word
  | _ => cases isEffect

/-- Nodes that are alike one by one are the same without their tracks if this holds of each. -/
theorem Node.Like.untracked_all {nodes others : List (Node S P)}
    (each : ∀ node ∈ nodes, ∀ other, node.Like other → node.untracked = other.untracked)
    (alike : List.Forall₂ Like nodes others) :
    nodes.map Node.untracked = others.map Node.untracked := by
  rw [← List.forall₂_eq_eq_eq, List.forall₂_map_left_iff, List.forall₂_map_right_iff]
  exact ((List.forall₂_and_left _ _).mpr ⟨each, alike⟩).imp fun _ _ pair => pair.1 _ pair.2

/-- Effects that are alike are the same without their tracks. -/
theorem Node.Like.untracked_effect [Scalar P] [Widen S P] [Measure P] (first : Node S P)
    (fits : first.Fits .effect) (second : Node S P) (like : first.Like second) :
    first.untracked = second.untracked := by
  induction first, fits using Fits.effect_induction generalizing second with
  | group head children childrenFit inductionHypothesis =>
    have kinds := Kind.untracked_effect rfl like.word
    obtain ⟨_, _, ⟨⟩, alikeChildren⟩ := like
    have below := untracked_all inductionHypothesis alikeChildren
    simp only [untracked, untrackedAll_map, below]
    exact congrArg (Node.mk head · [] _) kinds
  | control head kind control =>
    have kinds := Kind.untracked_effect (kind.is_control_iff.mp control).1 like.word
    obtain ⟨_, _, ⟨⟩, ⟨⟩⟩ := like
    exact congrArg (Node.mk head · [] []) kinds

/-! ## Layers -/

namespace Build

variable [Scalar P] [Widen S P] [Measure P] (workshop : Workshop S)

/-- The head of a layer is the same but for tracks, whatever contents its fragment has. -/
theorem layer_head_overlooked (fragment : Value) (next : Nat) :
    Option.Rel (MadeSame (S := S) (P := P)) (layerHead workshop fragment next)
      (layerHead workshop (blanked .layer fragment) next) := by
  cases fragment with
  | atom atom => exact .none
  | list items =>
    rw [blanked, layer_head_list, layer_head_list]
    exact .none
  | object members =>
    simp only [layerHead, Option.bind_eq_bind, blanked, label_overlooked]
    refine rel_bind (rel_of_eq rfl) ?_
    rintro label _ rfl
    refine rel_bind (layer_overlooked members) fun layer other same => ?_
    have kinds : LayerKind.ofDocument workshop.assets layer =
        LayerKind.ofDocument workshop.assets other := by
      change LayerKind.ofDocument _ (outside layer) = LayerKind.ofDocument _ (outside other)
      rw [same.outside]
    refine rel_bind (rel_of_eq kinds) ?_
    rintro kind _ rfl
    -- A layer takes its transform from the fragment, and all else from what stands outside.
    have own : (Kind.layer (Layer.ofDocument kind layer) : Kind S P).untracked =
        (Kind.layer (Layer.ofDocument kind other)).untracked := by
      change Kind.layer { Layer.ofDocument kind (outside layer) with
          transform := (Transform.ofDocument layer.transform).untracked } =
        .layer { Layer.ofDocument kind (outside other) with
          transform := (Transform.ofDocument other.transform).untracked }
      rw [same.outside, same_forms same.transform]
    have effects := effects_alike (S := S) (P := P) _ _
      (Document.Effect.all_read_alike blanked_twinning same.effects) (next + 1)
    have parts := Node.Like.untracked_all
      (fun node among => Node.Like.untracked_effect node (effects_fit.2 _ _ node among)) effects.1.1
    refine .some ⟨?_, effects.1.2⟩
    simp only [Node.untracked, Node.untrackedAll_map, own, parts]

/-- Two layers that are the same but for tracks, each with its fragment: one of the document, and
the same one with its contents blanked. -/
structure HeadsSame (entry other : Node S P × Value) : Prop where
  layers : entry.1.untracked = other.1.untracked
  members : ∃ members, entry.2 = .object members
  blanked : other.2 = Expression.blanked .layer entry.2

/-- The first round makes layers that are the same but for tracks. -/
theorem layer_heads_overlooked (layers : List Value) (next : Nat) :
    let made := (layerHeads workshop layers next : List (Node S P × Value) × Nat)
    let other := (layerHeads workshop (layers.map (blanked .layer)) next :
      List (Node S P × Value) × Nat)
    List.Forall₂ HeadsSame made.1 other.1 ∧ made.2 = other.2 := by
  induction layers generalizing next with
  | nil => exact ⟨.nil, rfl⟩
  | cons fragment rest inductionHypothesis =>
    rw [List.map_cons, layerHeads, layerHeads]
    rcases rel_cases (layer_head_overlooked (P := P) workshop fragment next) with
      ⟨none, noOther⟩ | ⟨⟨layer, after⟩, ⟨other, _⟩, made, otherMade, same, rfl⟩
    · simp only [none, noOther]
      exact inductionHypothesis next
    · obtain ⟨heads, last⟩ := inductionHypothesis after
      have members : ∃ members, fragment = .object members := by
        cases fragment with
        | atom atom => cases made
        | list items => simp [layer_head_list] at made
        | object members => exact ⟨members, rfl⟩
      simp only [made, otherMade]
      exact ⟨.cons ⟨same, members, rfl⟩ heads, last⟩

omit [Scalar P] [Widen S P] [Measure P] in
/-- A layer is the same but for tracks with any transform that is, and with children that are. -/
theorem filled_untracked (layer : Node S P) (transform : Transform S) (children : List (Node S P)) :
    ((layer.mapKind (setTransform transform)).withChildren children).untracked =
      (layer.untracked.mapKind (setTransform transform.untracked)).withChildren
        (children.map Node.untracked) := by
  have own (kind : Kind S P) : (setTransform transform kind).untracked =
      setTransform transform.untracked kind.untracked := by
    cases kind <;> rfl
  obtain ⟨head, kind, effects, _⟩ := layer
  simp only [Node.mapKind, Node.withChildren, Node.untracked, Node.untrackedAll_map, own]

omit [Measure P] in
/-- A layer is filled alike but for tracks from a fragment and from the blanked one. -/
theorem fill_layer_overlooked {layer other : Node S P} (same : layer.untracked = other.untracked)
    (members : List (String × Value)) (next : Nat) :
    MadeSame (fillLayer workshop layer (.object members) next)
      (fillLayer workshop other (.object (blankedMembers .layer members)) next) := by
  rw [fillLayer, fillLayer]
  rcases rel_cases (layer_overlooked (S := S) members) with
    ⟨none, noOther⟩ | ⟨first, second, read, otherRead, layers⟩
  · rw [none, noOther]
    exact ⟨same, rfl⟩
  · have each : List.Forall₂ (fun item other => ∀ next, Option.Rel (MadeSame (S := S) (P := P))
        (shape workshop.settings item next) (shape workshop.settings other next))
        first.shapes second.shapes := by
      refine layers.shapes.imp ?_
      rintro item _ ⟨-, rfl⟩
      exact (shape_overlooked workshop.settings item).1
    obtain ⟨children, last⟩ := shapes_overlooked workshop.settings each next
    simp only [read, otherRead]
    refine ⟨?_, last⟩
    rw [filled_untracked, filled_untracked, arranged_untracked, arranged_untracked, children, same,
      same_forms layers.transform]

omit [Measure P] in
/-- The second round fills layers alike but for tracks, if there are no expressions outside of
contents. -/
theorem fill_layers_overlooked {heads others : List (Node S P × Value)}
    (same : List.Forall₂ HeadsSame heads others)
    (plain : ∀ other ∈ others, refers other.2 = false) {filled done : List (Node S P)}
    (before : filled.map Node.untracked = done.map Node.untracked) (next : Nat) :
    AllSame (fillLayers workshop filled heads next) (fillLayers workshop done others next) := by
  induction same generalizing filled done next with
  | nil => exact ⟨before, rfl⟩
  | @cons entry other heads others here _ inductionHypothesis =>
    obtain ⟨layer, fragment⟩ := entry
    obtain ⟨counterpart, other⟩ := other
    obtain ⟨layers, ⟨members, rfl⟩, rfl⟩ := here
    obtain ⟨noExpression, behind⟩ := List.forall_mem_cons.mp plain
    let root := rootWith (filled ++ layer :: heads.map (·.1))
    let ground := rootWith (done ++ counterpart :: others.map (·.1))
    -- The scene so far is not the same for both. But the blanked fragment has no expressions, and
    -- in the other one only contents are replaced.
    have both : MadeSame (fillLayer workshop layer (resolve root (.object members)) next)
        (fillLayer workshop counterpart
          (resolve ground (blanked .layer (.object members))) next) := by
      obtain ⟨resolved, isObject, left⟩ := blanked_resolve_object root .layer noExpression
      rw [resolve_plain ground _ noExpression, isObject, blanked, ← left]
      exact fill_layer_overlooked workshop layers resolved next
    have longer (here there : Node S P) (same : here.untracked = there.untracked) :
        (filled ++ [here]).map Node.untracked = (done ++ [there]).map Node.untracked := by
      rw [List.map_append, List.map_append, before, List.map_singleton, List.map_singleton, same]
    have step := inductionHypothesis behind (longer _ _ both.1)
      (fillLayer workshop layer (resolve root (.object members)) next).2
    simp only [fillLayers]
    rw [← both.2]
    exact step

omit [Scalar P] [Widen S P] [Measure P] in
/-- Matte sources are moved alike whatever tracks there are. -/
theorem mattes_first_untracked (layers : List (Node S P)) :
    (mattesFirst layers).map Node.untracked = mattesFirst (layers.map Node.untracked) := by
  have source (layer : Node S P) : isMatteSource layer.untracked = isMatteSource layer := by
    obtain ⟨head, kind, effects, children⟩ := layer
    cases kind <;> rfl
  induction layers using mattesFirst.induct with
  | case1 layer next rest isSource inductionHypothesis =>
    rw [mattesFirst, if_pos isSource, List.map_cons, List.map_cons, List.map_cons, List.map_cons,
      mattesFirst, if_pos (source next ▸ isSource), inductionHypothesis]
  | case2 layer next rest noSource inductionHypothesis =>
    rw [mattesFirst, if_neg noSource, List.map_cons, List.map_cons, List.map_cons, mattesFirst,
      if_neg (source next ▸ noSource), inductionHypothesis, List.map_cons]
  | case3 layers short =>
    obtain _ | ⟨layer, _ | ⟨next, rest⟩⟩ := layers
    · rfl
    · rfl
    · exact absurd rfl (short _ _ _)

/-- A document is built alike but for tracks with its contents and with the contents blanked, if
there are no expressions outside of contents. -/
theorem document_overlooked (layers : List Value)
    (plain : ∀ layer ∈ layers, refers (blanked .layer layer) = false) :
    MadeSame (S := S) (P := P) (document workshop layers)
      (document workshop (layers.map (blanked .layer))) := by
  obtain ⟨heads, next⟩ := layer_heads_overlooked (P := P) workshop layers 1
  let blank := layers.map (blanked .layer)
  have fragments : ∀ other ∈ (layerHeads workshop blank 1 : List (Node S P × Value) × Nat).1,
      refers other.2 = false := by
    intro other among
    obtain ⟨layer, isLayer, fragment⟩ :=
      List.mem_map.mp (layer_heads_fragments workshop blank 1 other among)
    exact fragment ▸ plain layer isLayer
  have start : ([] : List (Node S P)).map Node.untracked = [].map Node.untracked := rfl
  obtain ⟨filled, last⟩ := fill_layers_overlooked workshop heads fragments start
    (layerHeads workshop layers 1 : List (Node S P × Value) × Nat).2
  simp only [document]
  rw [← next]
  refine ⟨?_, last⟩
  simp only [rootWith, Node.untracked, Node.untrackedAll_map, mattes_first_untracked,
    List.map_reverse, filled]

end Build

/-- What stands under `k` is never fatal, and decides nothing but tracks. Two documents that are the
same but for the contents of properties, of which one has no expressions, are built to trees with
the same nodes: the same heads and kinds in the same places, numbers included. Without their tracks
the nodes are the same altogether. Nor does the exchange stop the building: a path can be made of
every shape, if the layers are sound, as those of a text are. -/
theorem nodes_kept_by_contents [Scalar P] [Widen S P] [Measure P] (settings : Trim.Settings)
    (document : Document S) (others : List Value)
    (plain : ∀ layer ∈ document.layers, refers layer = false)
    (same : others.map (blanked .layer) = document.layers.map (blanked .layer)) :
    let tree : Tree S P := Tree.ofDocument settings document
    let exchanged : Tree S P := Tree.ofDocument settings { document with layers := others }
    tree.root.Like exchanged.root ∧ tree.root.untracked = exchanged.root.untracked ∧
      tree.next = exchanged.next ∧
      (Scalar.Ordered S → Scalar.Rounds S → (∀ other ∈ others, other.Sound) →
        ∀ node ∈ exchanged.root.listing, node.isUnbounded = false) := by
  intro tree exchanged
  have noExpression : ∀ layer ∈ document.layers, refers (blanked .layer layer) = false :=
    fun layer isLayer => blanked_plain .layer (plain layer isLayer)
  have noOther : ∀ other ∈ others, refers (blanked .layer other) = false := by
    intro other isOther
    have among : blanked .layer other ∈ document.layers.map (blanked .layer) :=
      same ▸ List.mem_map_of_mem isOther
    obtain ⟨layer, isLayer, left⟩ := List.mem_map.mp among
    exact left ▸ noExpression layer isLayer
  obtain ⟨root, next⟩ :=
    Build.document_overlooked (P := P) ⟨settings, document.assets⟩ document.layers noExpression
  obtain ⟨otherRoot, otherNext⟩ :=
    Build.document_overlooked (P := P) ⟨settings, document.assets⟩ others noOther
  rw [same] at otherRoot otherNext
  have untracked : tree.root.untracked = exchanged.root.untracked := root.trans otherRoot.symm
  exact ⟨.of_untracked untracked, untracked, next.trans otherNext.symm,
    fun _ _ sound => built_bounded settings _ sound⟩

/-- A document with one layer, which has a position, and on it a rectangle of a size. -/
def placedRectangle (position size : Value) : Document Float :=
  let property (content : Value) : Value := .object [("a", .natural 0), ("k", content)]
  let rectangle : Value :=
    .object [("nm", .text "Plate"), ("s", property size), ("ty", .text "rc")]
  { frameRate := 30
    inPoint := 0
    outPoint := 60
    layers := [.object [("ks", .object [("p", property position)]), ("op", .natural 60),
      ("shapes", .list [rectangle]), ("ty", .natural 4)]] }

/-- With a text for its position and an expression for its size, the layer and the rectangle are
still there. -/
theorem placed_rectangle_kept :
    let document := placedRectangle (.list [.natural 8, .natural 9])
      (.list [.natural 10, .natural 10])
    let others := (placedRectangle (.text "left")
      (.object [("x", .text "effect('Controls')('Size')")])).layers
    (∀ layer ∈ document.layers, refers layer = false) ∧
      others.map (blanked .layer) = document.layers.map (blanked .layer) ∧
      let tree : Tree Float Float := Tree.ofDocument {} document
      let exchanged : Tree Float Float := Tree.ofDocument {} { document with layers := others }
      tree.root.Like exchanged.root ∧ tree.root.untracked = exchanged.root.untracked ∧
        tree.next = exchanged.next ∧ tree.next = 3 ∧
        ∀ node ∈ exchanged.root.listing, node.isUnbounded = false := by
  intro document others
  have plain : ∀ layer ∈ document.layers, refers layer = false := by decide +kernel
  have same : others.map (blanked .layer) = document.layers.map (blanked .layer) := rfl
  have sound : ∀ other ∈ others, other.Sound := by
    simp [others, placedRectangle, Value.natural, Value.text, Atom.Sound, Number.Sound]
  obtain ⟨like, untracked, next, bounded⟩ :=
    nodes_kept_by_contents (P := Float) {} document others plain same
  exact ⟨plain, same, like, untracked, next, by decide +kernel,
    bounded inferInstance inferInstance sound⟩

end VectorMotion.Scene
