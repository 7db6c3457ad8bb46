import VectorMotion.Proofs.Scene.Controls
import VectorMotion.Proofs.Scene.Table

/-!
# Nodes that expressions leave as they are

A document can be built as it is, or without its expressions. Either way it has the same nodes, as
long as expressions are replaced only where a property is due, and only by what can be read as a
property. Nothing else is asked of what has been authored for a slider: it may be a property of
another kind, and what it says does not matter.

Both trees are followed side by side, first over shapes, then over layers in both rounds. The first
round replaces no expressions, so there the second fragment is the first one under a root without
sliders.
-/

namespace VectorMotion.Scene

open Json Expression

variable {S P : Type}

namespace Build

variable [Scalar S]

section Shapes

variable [Scalar P] [Widen S P] (settings : Trim.Settings) {root : Node S P} (tidy : Tidy root)
  {members : List (String × Value)} (parts : ∀ member ∈ members, member.2.normal = member.2)
  (suited : ∀ member ∈ members, member.1 ≠ effectsMember →
    suits root (Slot.under .shape member.1) member.2 = true)
include tidy parts suited

/-- A shape has the same kind with its expressions replaced and without them, or neither time. -/
theorem kinds_agree (name tag : String) :
    Option.Rel (fun first second : Kind S P => Report.kindWord first = Report.kindWord second)
      (kindOf settings name tag (.object (resolveMembers root members)))
      (kindOf settings name tag (.object (strippedMembers members))) := by
  have record {R : Type} (name : String) {blank : R} {fields : List (Record.Field R)}
      (each : ∀ field ∈ fields, FieldAgrees root .shape There field) {make : R → Kind S P}
      (alike : ∀ first second, Report.kindWord (make first) = Report.kindWord (make second)) :
      Option.Rel (fun first second => Report.kindWord first = Report.kindWord second)
        ((read? (Record.decode name blank fields) (.object (resolveMembers root members))).map make)
        ((read? (Record.decode name blank fields) (.object (strippedMembers members))).map make) := by
    rw [read_standing, read_standing]
    exact rel_map (members_agree rfl name trivial each parts suited) fun first second _ =>
      alike first second
  -- What is read in a shape besides properties: codes, and three records of properties.
  have code {R : Type} {name : String} {put : Nat → R → R} (noExpression : name ≠ "x")
      (noEffects : name ≠ effectsMember) :
      FieldAgrees root .shape There (.of name Decoder.code put) :=
    .there (.plain .code) noExpression noEffects
  have property {R V : Type} {name : String} {decode : Decoder V}
      {put : Document.Property S V → R → R} (noExpression : name ≠ "x")
      (noEffects : name ≠ effectsMember) (isProperty : Slot.under .shape name = .property) :
      FieldAgrees root .shape There (.of name (Document.Property.decode decode) put) :=
    .there (isProperty ▸ Agrees.property tidy decode) noExpression noEffects
  unfold kindOf
  split
  case h_1 => exact .some rfl
  case h_12 => exact .none
  case h_9 =>
    exact record "Transform" (transform_fields tidy (by decide)) fun _ _ => rfl
  all_goals
    refine record _ ?_ fun _ _ => rfl
    simp only [Document.Rectangle.fields, Document.Ellipse.fields, Document.Circle.fields,
      Document.FreeForm.fields, Document.Fill.fields, Document.GradientFill.fields,
      Document.Stroke.fields, Document.Trim.fields, Document.Repeater.fields,
      List.forall_mem_cons]
    repeat' apply And.intro
  all_goals
    first
    | exact property (by decide) (by decide) rfl
    | exact code (by decide) (by decide)
    | exact .there (.plain (.optional .code)) (by decide) (by decide)
    | exact .there (.plain (.optional .scalar)) (by decide) (by decide)
    | exact .there (table_agrees tidy) (by decide) (by decide)
    | exact .there (dashes_agree tidy) (by decide) (by decide)
    | exact .there (step_agrees tidy) (by decide) (by decide)
    | simp

omit tidy parts suited [Scalar P] [Widen S P] in
/-- A label has no properties. -/
theorem labels_agree {slot : Slot} {members : List (String × Value)}
    (parts : ∀ member ∈ members, member.2.normal = member.2)
    (suited : ∀ member ∈ members, member.1 ≠ effectsMember →
      suits root (slot.under member.1) member.2 = true) :
    read? Document.Label.decode (.object (resolveMembers root members)) =
      read? Document.Label.decode (.object (strippedMembers members)) := by
  have same {α : Type} (put : α → Document.Label → Document.Label) :
      ∀ first second, first = second → Record.Moves (· = ·) (put first) (put second) := by
    rintro first _ rfl label _ rfl
    rfl
  have each : ∀ field ∈ Document.Label.fields, FieldAgrees root slot (· = ·) field := by
    simp only [Document.Label.fields, List.forall_mem_cons]
    refine ⟨?_, ?_, ?_, ?_, by simp⟩
    · exact .of (by decide) (by decide) (.plain (.optional .text)) (same _)
    · exact .of (by decide) (by decide) (.plain (.optional .text)) (same _)
    · exact .of (by decide) (by decide) .switch (same _)
    · exact .of (by decide) (by decide) .switch (same _)
  rw [read_standing, read_standing]
  exact eq_of_rel (members_agree rfl "NodeInfo" rfl each parts suited)

/-- A shape with its expressions replaced has the head that it has without them, and the same
kind. -/
theorem shape_heads_agree (id : Nat) :
    Option.Rel (fun first second : Head × Kind S P => first.1 = second.1 ∧
        Report.kindWord first.2 = Report.kindWord second.2)
      (shapeHead settings (.object (resolveMembers root members)) id)
      (shapeHead settings (.object (strippedMembers members)) id) := by
  have tag (value : Value) : value.text? = Decoder.text.reading .value value := by
    cases value with
    | atom atom => cases atom <;> rfl
    | _ => rfl
  have tags : ((Value.object (resolveMembers root members)).member? "ty").bind Value.text? =
      ((Value.object (strippedMembers members)).member? "ty").bind Value.text? := by
    have resolved := resolve_members_lookup root members (show "ty" ≠ effectsMember by decide)
    have stripped := stripped_members_lookup members (show "ty" ≠ "x" by decide)
    simp only [Value.member?, Value.members?, Option.bind_some, resolved, stripped]
    cases standing : members.lookup "ty" with
    | none => rfl
    | some value =>
      obtain ⟨front, back, rfl, -⟩ := List.lookup_eq_some_iff.mp standing
      have among : ("ty", value) ∈ front ++ ("ty", value) :: back := by simp
      have noEffects : "ty" ≠ effectsMember := by decide
      have plain : Agrees root .property (· = ·) Decoder.text := .plain .text
      have same := plain .value rfl value (parts _ among) (suited _ among noEffects)
      simp only [Option.map_some, Option.bind_some, tag]
      exact eq_of_rel same
  have label := labels_agree parts suited
  have kinds (name tag : String) := kinds_agree (P := P) settings tidy parts suited name tag
  simp only [shapeHead, Option.bind_eq_bind, ← Option.bind_assoc]
  refine rel_bind (rel_of_eq tags) ?_
  rintro tag _ rfl
  refine rel_bind (rel_of_eq label) ?_
  rintro label _ rfl
  exact rel_bind (kinds _ tag) fun _ _ word => .some ⟨rfl, word⟩

end Shapes

section Shapes

variable [Scalar P] [Widen S P] (settings : Trim.Settings)

/-- A shape has the nodes of its items below it just in case it is a group. -/
theorem shape_made (members : List (String × Value)) (next : Nat) :
    (shape settings (.object members) next : Option (Node S P × Nat)) =
      (shapeHead settings (.object members) next).map fun made =>
        if made.2.isGroup then
          let (children, after) := shapes settings (itemsOf members) (next + 1)
          (.mk made.1 made.2 [] (arranged children), after)
        else (.mk made.1 made.2 [] [], next + 1) := by
  rw [shape]
  cases (shapeHead settings (.object members) next : Option (Head × Kind S P)) with
  | none => rfl
  | some made =>
    obtain ⟨head, kind⟩ := made
    cases kind <;> simp [Kind.isGroup, group_items_of]

/-- The items of a value that is a list. -/
def listed (value : Value) : List Value := value.items?.getD []

/-- Every item of a group stands in a list below it. -/
theorem items_of_listed (members : List (String × Value)) :
    ∀ item ∈ itemsOf members, ∃ member ∈ members, item ∈ listed member.2 := by
  induction members using itemsOf.induct with
  | case1 => simp [itemsOf]
  | case2 name items rest isItems =>
    intro item among
    rw [itemsOf, if_pos isItems] at among
    exact ⟨_, List.mem_cons_self, among⟩
  | case3 name items rest noItems inductionHypothesis =>
    intro item among
    rw [itemsOf, if_neg noItems] at among
    obtain ⟨member, behind, inside⟩ := inductionHypothesis item among
    exact ⟨member, List.mem_cons_of_mem _ behind, inside⟩
  | case4 first rest noList inductionHypothesis =>
    intro item among
    rw [itemsOf] at among
    · obtain ⟨member, behind, inside⟩ := inductionHypothesis item among
      exact ⟨member, List.mem_cons_of_mem _ behind, inside⟩
    · exact noList

/-- The items of a group are those of what stands under their name, if it stands there once. -/
theorem items_of_lookup {members : List (String × Value)} (once : (members.map Prod.fst).Nodup) :
    itemsOf members = ((members.lookup itemsMember).map listed).getD [] := by
  have absent (rest : List (String × Value)) (none : itemsMember ∉ rest.map Prod.fst) :
      itemsOf rest = [] := by
    induction rest using itemsOf.induct with
    | case1 => rfl
    | case2 name items rest isItems => simp_all
    | case3 name items rest noItems inductionHypothesis => simp_all [itemsOf]
    | case4 first rest noList inductionHypothesis =>
      obtain ⟨name, value⟩ := first
      cases value <;> simp_all [itemsOf]
  induction members with
  | nil => rfl
  | cons member rest inductionHypothesis =>
    obtain ⟨name, value⟩ := member
    obtain ⟨fresh, once⟩ := List.nodup_cons.mp once
    rw [List.lookup_cons]
    cases named : itemsMember == name with
    | false =>
      have other : (name == itemsMember) = false := by rwa [BEq.comm]
      have skipped : itemsOf ((name, value) :: rest) = itemsOf rest := by
        cases value <;> simp [itemsOf, other]
      rw [skipped, inductionHypothesis once]
    | true =>
      obtain rfl : itemsMember = name := eq_of_beq named
      cases value with
      | list items => simp [itemsOf, listed, Value.items?]
      | _ => simp [itemsOf, listed, Value.items?, absent rest fresh]

/-- Shapes that are alike one by one are alike together. -/
theorem shapes_alike {items others : List Value}
    (each : List.Forall₂ (fun item other => ∀ next, Option.Rel (MadeAlike (S := S) (P := P))
      (shape settings item next) (shape settings other next)) items others) (next : Nat) :
    AllAlike (S := S) (P := P) (shapes settings items next) (shapes settings others next) := by
  induction each generalizing next with
  | nil => exact ⟨.nil, rfl⟩
  | @cons item other _ _ here _ inductionHypothesis =>
    rw [shapes, shapes]
    rcases rel_cases (here next) with
      ⟨none, noOther⟩ | ⟨⟨node, after⟩, ⟨counterpart, _⟩, made, otherMade, like, same⟩
    · simp only [none, noOther]
      exact inductionHypothesis next
    · obtain rfl : after = _ := same
      obtain ⟨nodes, last⟩ := inductionHypothesis after
      simp only [made, otherMade]
      exact ⟨.cons like nodes, last⟩

/-- A shape with its expressions replaced is alike the shape without them, and so are the items of
lists. -/
theorem shape_agrees {root : Node S P} (tidy : Tidy root) (value : Value) :
    value.normal = value →
      (suits root .shape value = true → ∀ next, Option.Rel (MadeAlike (S := S) (P := P))
        (shape settings (resolve root value) next) (shape settings (stripped value) next)) ∧
      (suits root .contents value = true → ∀ next, AllAlike (S := S) (P := P)
        (shapes settings (listed (resolve root value)) next)
        (shapes settings (listed (stripped value)) next)) := by
  induction value using Value.by_parts with
  | atom atom =>
    exact fun _ => ⟨fun _ next => .none, fun _ next => ⟨.nil, rfl⟩⟩
  | list items inductionHypothesis =>
    intro normal
    have parts := (Value.normal_list_iff items).mp normal
    refine ⟨fun _ next => .none, fun suited next => ?_⟩
    have each := suits_items suited
    rw [resolve, stripped, resolve_items, stripped_items]
    refine shapes_alike settings ?_ next
    rw [listed, listed, Value.items?, Value.items?, Option.getD_some, Option.getD_some,
      List.forall₂_map_left_iff, List.forall₂_map_right_iff]
    exact List.forall₂_same.mpr fun item among =>
      (inductionHypothesis item among (parts item among)).1 (each item among)
  | object members inductionHypothesis =>
    intro normal
    have parts := ((Value.normal_object_iff members).mp normal).2
    constructor
    · intro suited next
      rcases suits_object suited with ⟨stays, inSlots⟩ | ⟨noShape, -⟩
      · have items : AllAlike (S := S) (P := P)
            (shapes settings (itemsOf (resolveMembers root members)) (next + 1))
            (shapes settings (itemsOf (strippedMembers members)) (next + 1)) := by
          have resolvedOnce := Value.names_once (stays ▸ tidy.resolved normal)
          have strippedOnce := Value.names_once (stripped_normal normal)
          rw [items_of_lookup resolvedOnce, items_of_lookup strippedOnce,
            resolve_members_lookup root members (by decide),
            stripped_members_lookup members (by decide)]
          cases standing : members.lookup itemsMember with
          | none => exact ⟨.nil, rfl⟩
          | some value =>
            obtain ⟨front, back, rfl, -⟩ := List.lookup_eq_some_iff.mp standing
            have among : (itemsMember, value) ∈ front ++ (itemsMember, value) :: back := by simp
            have noEffects : itemsMember ≠ effectsMember := by decide
            exact (inductionHypothesis _ among (parts _ among)).2 (inSlots _ among noEffects)
              (next + 1)
        rw [stays, stripped, shape_made, shape_made]
        refine rel_map (shape_heads_agree settings tidy parts inSlots next) ?_
        rintro ⟨head, kind⟩ ⟨_, other⟩ ⟨rfl, word⟩
        simp only [(Kind.same_word word).2.1]
        split
        · exact ⟨.mk head word .nil (arranged_alike items.1), items.2⟩
        · exact ⟨.mk head word .nil .nil, rfl⟩
      · cases noShape
    · intro suited next
      rcases suits_object suited with ⟨stays, -⟩ | ⟨noContents, -⟩
      · rw [stays]
        exact ⟨.nil, rfl⟩
      · cases noContents

end Shapes

/-! ## Layers -/

/-- A shape with its expressions replaced, where that may be done, and the shape without them. -/
def Twins (root : Node S P) (shape other : Value) : Prop :=
  ∃ item, item.normal = item ∧ suits root .shape item = true ∧ shape = resolve root item ∧
    other = stripped item

/-- A layer that is read from a fragment with its expressions replaced, and the one that is read
without them. -/
structure Counterparts (root : Node S P) (layer other : Document.Layer S) : Prop where
  kind : layer.kind = other.kind
  matteSource : layer.matteSource = other.matteSource
  effects : List.Forall₂ Bared layer.effects other.effects
  shapes : List.Forall₂ (Twins root) layer.shapes other.shapes

section Layers

variable {root : Node S P} (tidy : Tidy root)
include tidy

/-- The shapes of a layer are read item by item, to be built later. -/
theorem shapes_agree :
    Agrees root .contents (List.Forall₂ (Twins root)) (Decoder.list Source.toValue) := by
  intro origin entered value normal suited
  cases value with
  | atom atom => exact .none
  | list items =>
    have parts := (Value.normal_list_iff items).mp normal
    rw [resolve, stripped, resolve_items, stripped_items]
    refine Decoder.list_alike entered entered fun item among => ?_
    have whole := parts item among
    rw [Decoder.whole_reading entered (tidy.resolved whole),
      Decoder.whole_reading entered (stripped_normal whole)]
    exact .some ⟨item, whole, suits_items suited item among, rfl, rfl⟩
  | object members =>
    rcases suits_object suited with ⟨stays, -⟩ | ⟨noContents, -⟩
    · rw [stays]
      exact .none
    · cases noContents

omit tidy in
/-- The effects are read as they stand. -/
theorem effects_agree {origin : Origin} (entered : origin.enter = .ok ()) {value : Value}
    (normal : value.normal = value) :
    Option.Rel (List.Forall₂ Bared) ((Decoder.list Source.toValue).reading origin value)
      ((Decoder.list Source.toValue).reading origin (stripped value)) := by
  cases value with
  | atom atom => exact .none
  | list items =>
    have parts := (Value.normal_list_iff items).mp normal
    have read : Option.Rel (List.Forall₂ Bared)
        ((Decoder.list Source.toValue).reading origin (.list (items.map id)))
        ((Decoder.list Source.toValue).reading origin (.list (items.map stripped))) := by
      refine Decoder.list_alike entered entered fun item among => ?_
      have whole := parts item among
      rw [id, Decoder.whole_reading entered whole,
        Decoder.whole_reading entered (stripped_normal whole)]
      exact .some ⟨whole, rfl⟩
    rw [stripped, stripped_items]
    rwa [List.map_id] at read
  | object members => exact .none

/-- A layer can be read with its expressions replaced if it can be read without them. Its effects
stay as they stand. -/
theorem layers_agree {members : List (String × Value)}
    (parts : ∀ member ∈ members, member.2.normal = member.2)
    (suited : ∀ member ∈ members, member.1 ≠ effectsMember →
      suits root (Slot.under .layer member.1) member.2 = true) :
    Option.Rel (Counterparts (S := S) root)
      (read? Document.Layer.decode (.object (resolveMembers root members)))
      (read? Document.Layer.decode (.object (strippedMembers members))) := by
  have start : Counterparts (S := S) root Document.Layer.blank Document.Layer.blank :=
    ⟨rfl, rfl, .nil, .nil⟩
  have agreed {α : Type} {name : String} {decode : Decoder α}
      {put : α → Document.Layer S → Document.Layer S} {alike : α → α → Prop}
      (agrees : Agrees root (Slot.under .layer name) alike decode)
      (moves : ∀ read other, alike read other →
        Record.Moves (Counterparts root) (put read) (put other))
      (noExpression : name ≠ "x") (noEffects : name ≠ effectsMember) :
      FieldReads root members (Counterparts root) (.of name decode put) :=
    (FieldAgrees.of noExpression noEffects agrees moves).reads parts suited
  have effects : FieldReads root members (Counterparts root)
      (.of "ef" (Decoder.list Source.toValue)
        fun effects (record : Document.Layer S) => { record with effects }) := by
    refine ⟨rfl, fun origin entered member among goes => ?_⟩
    have named : "ef" = member.1 := by simpa [Record.Field.goesBy, Record.Field.of] using goes
    have isEffects : (member.1 == effectsMember) = true := beq_iff_eq.mpr named.symm
    rw [if_pos isEffects, Record.Field.of_reading, Record.Field.of_reading]
    refine rel_map (effects_agree entered (parts member among)) ?_
    rintro _ _ effects first second like
    exact ⟨like.kind, like.matteSource, effects, like.shapes⟩
  have reads : ∀ field ∈ Document.Layer.fields (S := S),
      FieldReads root members (Counterparts root) field := by
    simp only [Document.Layer.fields, List.forall_mem_cons]
    refine ⟨?_, ?_, ?_, ?_, ?_, ?_, ?_, ?_, ?_, ?_, ?_, ?_, ?_, ?_, ?_, by simp⟩
    · refine agreed (.plain .code) ?_ (by decide) (by decide)
      rintro read _ rfl first second like
      exact ⟨rfl, like.matteSource, like.effects, like.shapes⟩
    case refine_10 =>
      refine agreed .switch ?_ (by decide) (by decide)
      rintro read _ rfl first second like
      exact ⟨like.kind, rfl, like.effects, like.shapes⟩
    case refine_14 => exact effects
    case refine_15 =>
      refine agreed (shapes_agree tidy) ?_ (by decide) (by decide)
      rintro _ _ shapes first second like
      exact ⟨like.kind, like.matteSource, like.effects, shapes⟩
    -- The other fields change nothing that counterparts share.
    case refine_12 =>
      exact agreed (transform_agrees tidy) (fun _ _ _ _ _ like =>
        ⟨like.kind, like.matteSource, like.effects, like.shapes⟩) (by decide) (by decide)
    all_goals
      refine agreed (.plain ?_) (fun _ _ _ _ _ like =>
        ⟨like.kind, like.matteSource, like.effects, like.shapes⟩) (by decide) (by decide)
    all_goals
      first
      | exact .code
      | exact .scalar
      | exact .optional .index
      | exact .optional .text
  rw [read_standing, read_standing]
  exact members_alike rfl "Layer" start reads

end Layers

omit [Scalar S] in
/-- A root without sliders replaces no expressions. -/
theorem bare_silent (reference : Reference) :
    authored? (rootWith [] : Node S P) reference = none := by
  rw [root_authored]
  simp [Node.readFirst]

section Heads

variable (workshop : Workshop S)

/-- What a layer shows depends on its kind. -/
theorem layer_kinds_there {root : Node S P} {layer other : Document.Layer S}
    (counterparts : Counterparts root layer other) :
    Option.Rel There (LayerKind.ofDocument workshop.assets layer)
      (LayerKind.ofDocument workshop.assets other) := by
  rw [LayerKind.ofDocument, LayerKind.ofDocument, counterparts.kind]
  split
  · exact .some trivial
  · split
    · exact .some trivial
    · exact .none

/-- No layer is read from a list: what its first item would have to be for a label, it must not be
for a layer. -/
theorem layer_head_list (items : List Value) (next : Nat) :
    (layerHead workshop (.list items) next : Option (Node S P × Nat)) = none := by
  cases items with
  | nil => rfl
  | cons item rest =>
    have either : Decoder.code.reading .value item = none ∨
        (Decoder.optional Decoder.text).reading .value item = none := by
      cases item with
      | atom atom =>
        cases atom with
        | number number => exact .inr rfl
        | _ => exact .inl rfl
      | list items => exact .inl rfl
      | object members => exact .inl rfl
    rw [layerHead]
    rcases either with noCode | noText
    · have noLayer : read? (V := Document.Layer S) Document.Layer.decode (.list (item :: rest)) =
          none := by
        rw [read_standing, Document.Layer.decode, Document.Layer.fields]
        refine Record.first_unread rfl _ _ _ _ item rest ?_
        rw [Record.Field.of_reading, noCode]
        rfl
      rw [noLayer]
      exact Option.bind_fun_none _
    · have noLabel : read? Document.Label.decode (.list (item :: rest)) = none := by
        rw [read_standing, Document.Label.decode, Document.Label.fields]
        refine Record.first_unread rfl _ _ _ _ item rest ?_
        rw [Record.Field.of_reading, noText]
        rfl
      rw [noLabel]
      rfl

/-- The head of a layer is made alike with expressions and without. -/
theorem layer_head_alike {members : List (String × Value)}
    (parts : ∀ member ∈ members, member.2.normal = member.2) (next : Nat) :
    Option.Rel (fun made other : Node S P × Nat =>
        (LayersAlike made.1 other.1 ∧ WholeControls made.1) ∧ made.2 = other.2)
      (layerHead workshop (.object members) next)
      (layerHead workshop (.object (strippedMembers members)) next) := by
  let bare : Node S P := rootWith []
  have itself : resolveMembers bare members = members := by
    have unchanged := resolve_silent (bare_silent (S := S) (P := P)) (.object members)
    rw [resolve, no_replacement bare_silent] at unchanged
    exact Value.object.inj unchanged
  have suited : ∀ member ∈ members, member.1 ≠ effectsMember →
      suits bare (Slot.under .layer member.1) member.2 = true :=
    fun member _ _ => suits_silent bare_silent _ member.2
  have tidy : Tidy bare := .of_silent bare_silent
  have labels := labels_agree parts suited
  have layers := layers_agree tidy parts suited
  rw [itself] at labels layers
  simp only [layerHead, Option.bind_eq_bind, labels]
  refine rel_bind (rel_of_eq rfl) ?_
  rintro label _ rfl
  refine rel_bind layers fun layer other counterparts => ?_
  refine rel_bind (layer_kinds_there workshop counterparts) fun kind otherKind _ => ?_
  have effects := effects_alike (S := S) (P := P) _ _
    (Document.Effect.all_read_alike Document.Effect.bared_twinning counterparts.effects) (next + 1)
  refine .some ⟨⟨⟨?_, ?_⟩, ?_⟩, effects.1.2⟩
  · exact .mk _ rfl effects.1.1 .nil
  · exact counterparts.matteSource
  · exact whole_controls_mk (by simp [Kind.authored?]) effects.2 (by simp)

/-- Two layers that are alike, each with its fragment: one of the document, and the same one without
its expressions. -/
structure HeadsAlike (entry other : Node S P × Value) : Prop where
  layers : LayersAlike entry.1 other.1
  whole : WholeControls entry.1
  normal : entry.2.normal = entry.2
  members : ∃ members, entry.2 = .object members
  stripped : other.2 = Expression.stripped entry.2

/-- The first round makes layers that are alike. -/
theorem layer_heads_alike {layers : List Value} (normal : ∀ layer ∈ layers, layer.normal = layer)
    (next : Nat) :
    let made := (layerHeads workshop layers next : List (Node S P × Value) × Nat)
    let other := (layerHeads workshop (layers.map stripped) next : List (Node S P × Value) × Nat)
    List.Forall₂ HeadsAlike made.1 other.1 ∧ made.2 = other.2 := by
  induction layers generalizing next with
  | nil => exact ⟨.nil, rfl⟩
  | cons fragment rest inductionHypothesis =>
    obtain ⟨here, behind⟩ := List.forall_mem_cons.mp normal
    rw [List.map_cons, layerHeads, layerHeads]
    cases fragment with
    | atom atom => exact inductionHypothesis behind next
    | list items =>
      rw [stripped, layer_head_list, layer_head_list]
      exact inductionHypothesis behind next
    | object members =>
      have parts := ((Value.normal_object_iff members).mp here).2
      rw [stripped]
      rcases rel_cases (layer_head_alike (P := P) workshop parts next) with
        ⟨none, noOther⟩ | ⟨⟨layer, after⟩, ⟨other, _⟩, made, otherMade, ⟨like, whole⟩, same⟩
      · simp only [none, noOther]
        exact inductionHypothesis behind next
      · obtain rfl : after = _ := same
        obtain ⟨heads, last⟩ := inductionHypothesis behind after
        simp only [made, otherMade]
        exact ⟨.cons ⟨like, whole, here, ⟨members, rfl⟩, rfl⟩ heads, last⟩

end Heads

section Contents

variable [Scalar P] [Widen S P] (workshop : Workshop S)

omit [Scalar S] [Scalar P] [Widen S P] in
/-- Layers that are alike stay so with other transforms and with contents that are alike. -/
theorem filled_alike {layer other : Node S P} (alike : LayersAlike layer other)
    {children contents : List (Node S P)} (below : List.Forall₂ Node.Like children contents)
    (transform counterpart : Transform S) :
    LayersAlike ((layer.mapKind (setTransform transform)).withChildren children)
      ((other.mapKind (setTransform counterpart)).withChildren contents) := by
  have word (transform : Transform S) (kind : Kind S P) :
      Report.kindWord (setTransform transform kind) = Report.kindWord kind := by
    cases kind <;> rfl
  refine ⟨?_, by rw [matte_source_filled, matte_source_filled, alike.2]⟩
  obtain ⟨head, same, effects, -⟩ := alike.1
  exact .mk head (by rw [word, word, same]) effects below

/-- A layer is filled alike from a fragment with its expressions replaced and from the fragment
without them. -/
theorem fill_layer_alike {root : Node S P} (ground : Node S P) (tidy : Tidy root)
    {entry other : Node S P × Value} (heads : HeadsAlike entry other)
    (suited : suits root .layer entry.2 = true) (next : Nat) :
    let filled := fillLayer workshop entry.1 (resolve root entry.2) next
    let counterpart := fillLayer workshop other.1 (resolve ground other.2) next
    LayersAlike filled.1 counterpart.1 ∧ filled.2 = counterpart.2 := by
  obtain ⟨layer, fragment⟩ := entry
  obtain ⟨_, _⟩ := other
  obtain ⟨layers, -, normal, ⟨members, rfl⟩, rfl⟩ := heads
  rcases suits_object suited with ⟨stays, inSlots⟩ | ⟨noLayer, -⟩
  · have parts := ((Value.normal_object_iff members).mp normal).2
    simp only
    rw [resolve_plain ground _ (stripped_plain _), stays, stripped, fillLayer, fillLayer]
    rcases rel_cases (layers_agree tidy parts inSlots) with
      ⟨none, noOther⟩ | ⟨first, second, read, otherRead, counterparts⟩
    · rw [none, noOther]
      exact ⟨layers, rfl⟩
    · have each : List.Forall₂ (fun item other => ∀ next, Option.Rel (MadeAlike (S := S) (P := P))
          (shape workshop.settings item next) (shape workshop.settings other next))
          first.shapes second.shapes := by
        refine counterparts.shapes.imp ?_
        rintro _ _ ⟨item, itemNormal, itemSuited, rfl, rfl⟩
        exact (shape_agrees workshop.settings tidy item itemNormal).1 itemSuited
      obtain ⟨children, last⟩ := shapes_alike workshop.settings each next
      simp only [read, otherRead]
      exact ⟨filled_alike layers (arranged_alike children) _ _, last⟩
  · cases noLayer

/-- The second round fills layers alike, if expressions are replaced only where properties are
due. -/
theorem fill_layers_alike {heads others : List (Node S P × Value)}
    (alike : List.Forall₂ HeadsAlike heads others) {filled done : List (Node S P)}
    (before : List.Forall₂ LayersAlike filled done) (next : Nat)
    (suited : ∀ stage ∈ stages workshop filled heads next,
      Tidy stage.ground ∧ suits stage.ground .layer stage.fragment = true) :
    let all := fillLayers workshop filled heads next
    let counterparts := fillLayers workshop done others next
    List.Forall₂ LayersAlike all.1 counterparts.1 ∧ all.2 = counterparts.2 := by
  induction alike generalizing filled done next with
  | nil => exact ⟨before, rfl⟩
  | @cons entry other heads others here _ inductionHypothesis =>
    obtain ⟨layer, fragment⟩ := entry
    obtain ⟨counterpart, other⟩ := other
    rw [stages] at suited
    obtain ⟨⟨tidy, fits⟩, behind⟩ := List.forall_mem_cons.mp suited
    let ground := rootWith (done ++ counterpart :: others.map (·.1))
    obtain ⟨like, same⟩ := fill_layer_alike workshop ground tidy here fits next
    have step := inductionHypothesis (List.rel_append before (.cons like .nil)) _ behind
    simp only [fillLayers]
    rw [← same]
    exact step

end Contents

section Documents

omit [Scalar S] in
/-- A reference means what has been authored for a slider below the root. -/
theorem authored_below {root : Node S P} {reference : Reference} {authored : Value}
    (means : authored? root reference = some authored) :
    ∃ control ∈ root.listing, control.kind.authored? = some authored := by
  rw [authored_listing] at means
  obtain ⟨effect, found, means⟩ := Option.bind_eq_some_iff.mp means
  obtain ⟨control, inside, means⟩ := Option.bind_eq_some_iff.mp means
  have below := (Node.listing_sublist (List.mem_of_find?_eq_some found)).subset
    (List.mem_of_find?_eq_some inside)
  exact ⟨control, below, means⟩

omit [Scalar S] in
/-- A tree whose controls are whole is tidy. -/
theorem tidy_of_whole {root : Node S P} (whole : WholeControls root) : Tidy root := by
  intro reference authored means
  obtain ⟨control, below, means⟩ := authored_below means
  exact whole control below authored means

variable [Scalar P] [Widen S P]

/-- The steps in which the layers of a document are filled. -/
def documentStages (workshop : Workshop S) (layers : List Value) : List (Stage S P) :=
  let heads := layerHeads workshop layers 1
  stages workshop [] heads.1 heads.2

/-- Whether expressions are replaced only where a property is due, and only by what can be read as
one, whenever a layer of a document is filled. -/
def Suited (P : Type) [Scalar P] [Widen S P] (workshop : Workshop S) (layers : List Value) : Prop :=
  ∀ stage ∈ (documentStages workshop layers : List (Stage S P)),
    suits stage.ground .layer stage.fragment = true

instance (workshop : Workshop S) (layers : List Value) : Decidable (Suited P workshop layers) :=
  inferInstanceAs (Decidable (∀ stage ∈ _, _))

variable [Measure P] (workshop : Workshop S) {layers : List Value}
  (normal : ∀ layer ∈ layers, layer.normal = layer)
include normal

/-- Whenever a layer is filled, what can be put in place of expressions is in normal form. -/
theorem stages_tidy : ∀ stage ∈ (documentStages workshop layers : List (Stage S P)),
    Tidy stage.ground := by
  intro stage isStage
  let heads := (layerHeads workshop layers 1 : List (Node S P × Value) × Nat)
  have headsFit : ∀ entry ∈ heads.1, entry.1.Fits .layer ∧ entry.1.children = [] :=
    fun entry inside => ⟨layer_heads_fit workshop layers 1 entry inside,
      (layer_heads_numbered workshop layers 1).2 entry inside⟩
  have whole : ∀ entry ∈ heads.1, WholeControls entry.1 :=
    ((List.forall₂_and_left _ _).mp ((layer_heads_alike workshop normal 1).1.imp
      fun _ _ entries => ⟨entries.whole, entries⟩)).1
  obtain ⟨full, ground, furnished⟩ :=
    stages_grounds workshop heads.1 [] [] heads.2 .nil headsFit stage isStage
  have bare : Tidy (rootWith (heads.1.map Prod.fst)) :=
    tidy_of_whole
      (whole_controls_mk (by simp [Kind.authored?]) (by simp) (List.forall_mem_map.mpr whole))
  intro reference authored means
  rw [ground] at means
  exact bare reference authored ((furnished_authored furnished reference).1 authored means)

/-- Where expressions are replaced only by properties where properties are due, the roots are alike
with expressions and without. -/
theorem document_alike (suited : Suited P workshop layers) :
    MadeAlike (S := S) (P := P) (document workshop layers)
      (document workshop (layers.map stripped)) := by
  obtain ⟨heads, next⟩ := layer_heads_alike (P := P) workshop normal 1
  obtain ⟨filled, last⟩ := fill_layers_alike workshop heads .nil
    (layerHeads workshop layers 1 : List (Node S P × Value) × Nat).2 fun stage isStage =>
      ⟨stages_tidy workshop normal stage isStage, suited stage isStage⟩
  have ordered := mattes_first_alike (List.rel_reverse filled)
  simp only [document]
  rw [← next]
  exact ⟨.mk _ rfl .nil (ordered.imp fun _ _ alike => alike.1), last⟩

end Documents

end Build

section

variable [Scalar S] [Scalar P] [Widen S P] [Measure P]

/-- A document has the same nodes with its expressions and without them, if expressions are replaced
only where a property is due and by what can be read as a property: the same heads and kinds in the
same places, numbers included. Fragments are in normal form, as they are once they have been
read. -/
theorem nodes_kept_by_properties (settings : Trim.Settings) (document : Document S)
    (normal : ∀ layer ∈ document.layers, layer.normal = layer)
    (suited : Build.Suited P ⟨settings, document.assets⟩ document.layers) :
    let tree : Tree S P := Tree.ofDocument settings document
    let plain : Tree S P :=
      Tree.ofDocument settings { document with layers := document.layers.map stripped }
    tree.root.Like plain.root ∧ tree.next = plain.next := by
  intro tree plain
  exact Build.document_alike ⟨settings, document.assets⟩ normal suited

end

/-- A document with one layer, on which a rectangle takes its size from a control. -/
def sizedByControl (control : List (String × Value)) : Document Float32 :=
  let slider : Value := .object ([("nm", .text "Size"), ("ty", .natural 0)] ++ control)
  let controls : Value :=
    .object [("ef", .list [slider]), ("nm", .text "Controls"), ("ty", .natural 5)]
  let size : Value :=
    .object [("k", .list [.natural 10, .natural 10]), ("x", .text "effect('Controls')('Size')")]
  let rectangle : Value := .object [("s", size), ("ty", .text "rc")]
  { frameRate := 30
    inPoint := 0
    outPoint := 60
    layers := [.object [("ef", .list [controls]), ("op", .natural 60),
      ("shapes", .list [rectangle]), ("ty", .natural 4)]] }

/-- Where a value has been authored for the control, the rectangle is there either way. -/
theorem sized_rectangle_kept :
    let document := sizedByControl [("v", .object [("k", .list [.natural 40, .natural 20])])]
    (∀ layer ∈ document.layers, layer.normal = layer) ∧
      Build.Suited (S := Float32) Float {} document.layers ∧
      let tree : Tree Float32 Float := Tree.ofDocument {} document
      let plain : Tree Float32 Float :=
        Tree.ofDocument {} { document with layers := document.layers.map stripped }
      tree.root.Like plain.root ∧ tree.next = plain.next ∧ tree.next = 5 := by
  intro document
  have normal : ∀ layer ∈ document.layers, layer.normal = layer := by
    intro layer among
    obtain rfl := List.mem_singleton.mp among
    rfl
  have suited : Build.Suited (S := Float32) Float {} document.layers := by
    decide +kernel
  obtain ⟨like, same⟩ := nodes_kept_by_properties (P := Float) {} document normal suited
  exact ⟨normal, suited, like, same, by decide +kernel⟩

/-- Where none has been authored, null is put in place of the size, and the rectangle is lost. -/
theorem sized_rectangle_lost :
    let document := sizedByControl []
    let tree : Tree Float32 Float := Tree.ofDocument {} document
    let plain : Tree Float32 Float :=
      Tree.ofDocument {} { document with layers := document.layers.map stripped }
    ¬tree.root.Like plain.root ∧ tree.next = 4 ∧ plain.next = 5 := by
  intro document tree plain
  refine ⟨fun like => ?_, by decide +kernel⟩
  have nodes : tree.root.listing.length = plain.root.listing.length := by
    simpa using congrArg List.length like.listed
  exact absurd nodes (by decide +kernel)

end VectorMotion.Scene
