import VectorMotion.Proofs.Json.Fragments
import VectorMotion.Proofs.Scene.Substitution

/-!
# Trees that have just been built

A shape is made with the path that it has before it has ever been brought to a time, so a rectangle
whose size is no number would stop the building already. There is no such rectangle: what its track
starts with has been read from a fragment, and in a fragment every number is one. Only on the way
from one keyframe to the next can a value cease to be a number.

Replacing the expressions of a fragment keeps it sound, because what is put in their place has been
read from a fragment before.
-/

namespace VectorMotion

open Json

/-! ## What properties start with -/

namespace Document

variable {S V : Type} {kept : V → Prop}

/-- Whether a property holds of the values that the track of some content can start with. -/
def Content.Starts (kept : V → Prop) : Content S V → Prop
  | .absent => True
  | .fixed value => kept value
  | .keyed keys => ∀ key ∈ keys, ∀ value ∈ key.start, kept value

variable [Scalar S] {decode : Decoder V}

/-- The first item of a sound list keeps what the decoder of items keeps. -/
theorem Keyframe.first_kept (keeps : decode.Keeps kept) {value : Value} (sound : value.Sound) :
    ∀ first ∈ firstOf? decode value, kept first := by
  intro first found
  unfold firstOf? at found
  split at found
  next read =>
    obtain rfl := Option.some.inj found
    exact (keeps.sequence _).value sound read _ List.mem_cons_self
  next => cases found

/-- So does the value of a keyframe, if it has one. -/
theorem Keyframe.value_kept (keeps : decode.Keeps kept) :
    (decodeValue decode).Keeps fun found => ∀ value ∈ found, kept value := by
  have valued (value : Value) (sound : value.Sound) :
      ∀ found ∈ valueOf? decode value, kept found := by
    intro found isValue
    have first := first_kept keeps sound found
    unfold valueOf? at isValue
    split at isValue
    · cases isValue
    · dsimp only at isValue
      split at isValue
      next wrapped =>
        split at wrapped
        · exact first (wrapped.trans isValue)
        · cases wrapped
      · split at isValue
        next direct read =>
          obtain rfl := Option.some.inj isValue
          exact keeps.value sound read
        · exact first isValue
  exact Decoder.Keeps.whole.map valued

/-- Keyframes start with values that their decoder keeps. -/
theorem Keyframe.keeps (keeps : decode.Keeps kept) :
    (Keyframe.decode (S := S) decode).Keeps fun key => ∀ value ∈ key.start, kept value := by
  have each : ∀ field ∈ Keyframe.fields (S := S) decode,
      field.Keeps fun key => ∀ value ∈ key.start, kept value := by
    simp only [Keyframe.fields, List.forall_mem_cons]
    refine ⟨.must ?_, .put (value_kept keeps) fun _ fit _ _ => fit, .of ?_, .of ?_, .of ?_, .of ?_,
      .of ?_, .of ?_, by simp⟩
    all_goals exact fun _ _ _ _ _ kept => kept
  exact Record.keeps _ (by simp) each

/-- The values with which a content starts keep what the decoder of values keeps. -/
theorem Content.keeps (keeps : decode.Keeps kept) :
    (Content.decode (S := S) decode).Keeps (Content.Starts kept) := by
  have valued (value : Value) (sound : value.Sound) :
      (Content.ofValue (S := S) decode value).Starts kept := by
    unfold ofValue
    split
    · trivial
    · split
      next keys read => exact ((Keyframe.keeps keeps).sequence _).value sound read
      · split
        next direct read => exact keeps.value sound read
        · split
          next first read => exact Keyframe.first_kept keeps sound first read
          · trivial
  exact Decoder.Keeps.whole.map valued

/-- So do those with which a property starts. -/
theorem Property.keeps (keeps : decode.Keeps kept) :
    (Property.decode (S := S) decode).Keeps fun property => property.content.Starts kept := by
  have each : ∀ field ∈ Property.fields (S := S) decode,
      field.Keeps fun property => property.content.Starts kept := by
    simp only [Property.fields, List.forall_mem_cons]
    refine ⟨.of ?_, .put (Content.keeps keeps) fun _ fit _ _ => fit, .of ?_, .of ?_, .of ?_,
      by simp⟩
    all_goals exact fun _ _ _ _ _ kept => kept
  exact Record.keeps _ trivial each

end Document

/-- A track starts with a value that its property can start with, or with its default. -/
theorem Track.starts {S V W : Type} [Scalar S] [Blend S V] {kept : V → Prop} {convert : W → V}
    {default : V} (start : kept default) {property : Document.Property S W}
    (starts : property.content.Starts fun value => kept (convert value)) :
    kept (Track.ofProperty convert default property).value := by
  unfold Track.ofProperty
  split
  next => exact start
  next value isFixed =>
    rw [isFixed] at starts
    exact starts
  next keys isKeyed =>
    rw [isKeyed] at starts
    have started (key : Document.Keyframe S W) (among : key ∈ keys) :
        kept ((key.start.map convert).getD default) := by
      cases authored : key.start with
      | none => exact start
      | some value => exact starts key among value authored
    -- The value of a track is that of its first span, whether there are others behind it or not.
    match keys with
    | [] => exact start
    | [last] => exact started last List.mem_cons_self
    | key :: next :: rest => exact started key List.mem_cons_self

namespace Scene

variable {S P : Type} [Scalar S]

/-! ## Nodes -/

/-- A kind that is no rectangle without a path. If it is a slider, what has been authored for it is
sound. -/
def Kind.Sound : Kind S P → Prop
  | .shape content => content.contour.unbounded = false
  | .slider content => content.authored.Sound
  | _ => True

/-- What has been authored for a sound slider is sound. -/
theorem Kind.Sound.authored {kind : Kind S P} (sound : kind.Sound) {whole : Value}
    (isAuthored : kind.authored? = some whole) : whole.Sound := by
  cases kind with
  | slider content => exact Option.some.inj isAuthored ▸ sound
  | _ => cases isAuthored

/-- A path can be made of every sound rectangle. -/
theorem Kind.Sound.bounded {node : Node S P} (sound : node.kind.Sound) :
    node.isUnbounded = false := by
  unfold Node.isUnbounded
  split
  next isShape =>
    rw [isShape] at sound
    exact sound
  next => rfl

/-- Whether this holds of the kinds of a node and of all nodes below it. -/
def Node.Sound (node : Node S P) : Prop := ∀ listed ∈ node.listing, listed.kind.Sound

/-- A node is sound if it is so itself and all its parts are. -/
theorem Node.sound_mk {head : Head} {kind : Kind S P} {effects children : List (Node S P)}
    (own : kind.Sound) (within : ∀ effect ∈ effects, effect.Sound)
    (below : ∀ child ∈ children, child.Sound) : (Node.mk head kind effects children).Sound :=
  Node.forall_listing.mpr ⟨own, within, below⟩

omit [Scalar S] in
/-- What is read from a sound fragment has the properties that its decoder keeps. -/
theorem read_kept {α : Type} {kept : α → Prop} {decode : Decoder α} (keeps : decode.Keeps kept)
    {fragment : Value} (sound : fragment.Sound) {result : α}
    (read : read? decode fragment = some result) : kept result := by
  cases decoded : decode.ofValue fragment with
  | ok value =>
    rw [read?, decoded] at read
    exact Option.some.inj read ▸ keeps.value sound decoded
  | error misfit =>
    rw [read?, decoded] at read
    cases read

end Scene

/-! ## Effects -/

namespace Document.Effect

/-- An effect for the controls of which only sound values have been authored. -/
inductive Sound : Effect → Prop where
  | mk (kind : Nat) (name matchName : Option String) {parts : List Effect} {value : Option Value}
      (each : ∀ part ∈ parts, Sound part) (authored : ∀ whole ∈ value, whole.Sound) :
      Sound (.mk kind name matchName parts value)

/-- Sound effects are read under any bound. -/
theorem below_sound (bound : Nat) : (decodeBelow bound).Keeps Sound := by
  -- A bound that is too low makes a misfit, of which nothing has to be shown.
  induction bound with
  | zero =>
    intro source sound effect read
    cases read
  | succ bound inductionHypothesis =>
    have each : ∀ field ∈ fields (decodeBelow bound), field.Keeps Sound := by
      simp only [fields, List.forall_mem_cons]
      refine ⟨.of ?_, .of ?_, .of ?_, .put (inductionHypothesis.sequence _) ?_,
        .put Decoder.Keeps.whole.optional ?_, by simp⟩
      · rintro source kind - - _ ⟨_, name, matchName, each, authored⟩
        exact .mk kind name matchName each authored
      · rintro source name - - _ ⟨kind, _, matchName, each, authored⟩
        exact .mk kind name matchName each authored
      · rintro source matchName - - _ ⟨kind, name, _, each, authored⟩
        exact .mk kind name matchName each authored
      · rintro parts each _ ⟨kind, name, matchName, -, authored⟩
        exact .mk kind name matchName each authored
      · rintro value authored _ ⟨kind, name, matchName, each, -⟩
        exact .mk kind name matchName each authored
    have blank : Sound blank := .mk 0 none none (by simp) (by simp)
    exact Record.keeps _ blank each

/-- What an effect has authored is sound if the document is. -/
theorem decode_sound : decode.Keeps Sound := fun source sound effect read =>
  below_sound _ source sound effect read

end Document.Effect

namespace Scene

variable {S P : Type} [Scalar S]

namespace Build

/-- The controls of a sound effect have sound values. -/
theorem effect_kind_sound {authored : Document.Effect} (sound : authored.Sound) {kind : Kind S P}
    (known : effectKind authored = some kind) : kind.Sound := by
  unfold effectKind at known
  split at known
  case h_1 =>
    obtain rfl := Option.some.inj known
    obtain @⟨code, name, matchName, parts, value, -, whole⟩ := sound
    cases value with
    | none => exact .atom trivial
    | some value => exact whole value rfl
  case h_4 => cases known
  all_goals
    obtain rfl := Option.some.inj known
    trivial

/-- The nodes of sound effects are sound, also those in groups at any depth. -/
theorem effects_sound :
    (∀ authored next (node : Node S P) after, authored.Sound →
      effect authored next = some (node, after) → node.Sound) ∧
    (∀ authored next, (∀ first ∈ authored, first.Sound) →
      ∀ node ∈ (effects authored next : List (Node S P) × Nat).1, node.Sound) := by
  apply Build.effect.mutual_induct (S := S) (P := P)
  case case1 =>
    intro code name matchName parts value next authored unknown node after sound built
    simp [effect, unknown, authored] at built
  case case2 =>
    intro code name matchName parts value next authored isGroup children last same partsSound node
      after sound built
    obtain ⟨_, _, _, each, -⟩ := sound
    have below := partsSound each
    rw [same] at below
    simp only [effect, isGroup, same, authored, Option.some.injEq, Prod.mk.injEq] at built
    obtain ⟨rfl, -⟩ := built
    exact Node.sound_mk trivial (by simp) below
  case case3 =>
    intro code name matchName parts value next authored kind noGroup known node after sound built
    simp only [effect, known, authored, Option.some.injEq, Prod.mk.injEq] at built
    obtain ⟨rfl, -⟩ := built
    exact Node.sound_mk (effect_kind_sound sound known) (by simp) (by simp)
  case case4 =>
    intro next sound node member
    simp [effects] at member
  case case5 =>
    intro item rest next first after built others last same firstSound restSound sound
    obtain ⟨here, behind⟩ := List.forall_mem_cons.mp sound
    have nodes := restSound behind
    rw [same] at nodes
    simp only [effects, built, same]
    exact List.forall_mem_cons.mpr ⟨firstSound _ _ here built, nodes⟩
  case case6 =>
    intro item rest next unknown _ restSound sound
    simp only [effects, unknown]
    exact restSound (List.forall_mem_cons.mp sound).2

end Build

/-! ## Fragments with their expressions replaced -/

namespace Expression

/-- What is put in place of an expression is sound. -/
theorem replacement_sound {root : Node S P} (sound : root.Sound) {members : List (String × Value)}
    {other : Value} (replaced : replacement? root members = some other) : other.Sound := by
  obtain ⟨text, authored, -, refers, rfl⟩ := (replacement_iff root members other).mp replaced
  obtain ⟨reference, -, means⟩ := Option.bind_eq_some_iff.mp refers
  obtain ⟨control, below, isAuthored⟩ := Build.authored_below means
  have known : authored.Sound := (sound control below).authored isAuthored
  cases known with
  | atom sound => exact .atom sound
  | list each => exact .list each
  | object each =>
    refine .object fun member among => ?_
    rcases Value.mem_insert among with rfl | standing
    · exact .atom trivial
    · exact each member standing

/-- Sound fragments stay sound when their expressions are replaced. -/
theorem resolve_sound {root : Node S P} (rootSound : root.Sound) {fragment : Value}
    (sound : fragment.Sound) : (resolve root fragment).Sound := by
  induction sound with
  | atom sound => exact .atom sound
  | list _ inductionHypothesis =>
    rw [resolve, resolve_items]
    exact .list (List.forall_mem_map.mpr inductionHypothesis)
  | @object members each inductionHypothesis =>
    rw [resolve]
    split
    next other replaced => exact replacement_sound rootSound replaced
    next =>
      rw [resolve_members]
      refine .object (List.forall_mem_map.mpr fun member among => ?_)
      dsimp only
      split
      · exact each member among
      · exact inductionHypothesis member among

end Expression

/-! ## Layers -/

namespace Build

variable (workshop : Workshop S)

/-- Whether the effects and the shapes of a layer are sound. -/
def PartsSound (layer : Document.Layer S) : Prop :=
  (∀ effect ∈ layer.effects, effect.Sound) ∧ ∀ shape ∈ layer.shapes, shape.Sound

/-- A layer that is read from a sound fragment has sound effects and shapes. -/
theorem layer_sound : (Document.Layer.decode (S := S)).Keeps PartsSound := by
  have each : ∀ field ∈ Document.Layer.fields (S := S), field.Keeps PartsSound := by
    simp only [Document.Layer.fields, List.forall_mem_cons]
    refine ⟨.of ?_, .of ?_, .of ?_, .of ?_, .of ?_, .of ?_, .of ?_, .of ?_, .of ?_, .of ?_, .of ?_,
      .of ?_, .of ?_, .put Decoder.Keeps.wholes fun _ effects _ kept => ⟨effects, kept.2⟩,
      .put Decoder.Keeps.wholes fun _ shapes _ kept => ⟨kept.1, shapes⟩, by simp⟩
    all_goals exact fun _ _ _ _ _ kept => kept
  have blank : PartsSound (Document.Layer.blank (S := S)) := by
    simp [PartsSound, Document.Layer.blank]
  exact Record.keeps _ blank each

/-- The head of a layer is sound that is read from a sound fragment. -/
theorem layer_head_sound {fragment : Value} (sound : fragment.Sound) {next : Nat}
    {made : Node S P × Nat} (built : layerHead workshop fragment next = some made) :
    made.1.Sound := by
  simp only [layerHead, Option.bind_eq_bind, Option.bind_eq_some_iff, Option.pure_def,
    Option.some.injEq] at built
  obtain ⟨label, -, authored, layerRead, kind, -, rfl⟩ := built
  have values := (read_kept layer_sound sound layerRead).1
  refine Node.sound_mk trivial (effects_sound.2 _ _ fun effect among => ?_) (by simp)
  obtain ⟨value, isEffect, read⟩ := List.mem_filterMap.mp among
  exact read_kept Document.Effect.decode_sound (values value isEffect) read

/-- The layers of the first round are sound. -/
theorem layer_heads_sound {layers : List Value} (sound : ∀ layer ∈ layers, layer.Sound)
    (next : Nat) : ∀ entry ∈ (layerHeads workshop layers next : List (Node S P × Value) × Nat).1,
      entry.1.Sound := by
  induction layers generalizing next with
  | nil => simp [layerHeads]
  | cons fragment rest inductionHypothesis =>
    obtain ⟨here, behind⟩ := List.forall_mem_cons.mp sound
    cases built : (layerHead workshop fragment next : Option (Node S P × Nat)) with
    | none => simpa only [layerHeads, built] using inductionHypothesis behind next
    | some made =>
      simp only [layerHeads, built]
      exact List.forall_mem_cons.mpr
        ⟨layer_head_sound workshop here built, inductionHypothesis behind made.2⟩

end Build

variable [Scalar.Ordered S] [Scalar.Rounds S]

/-! ## Rectangles -/

/-- A size that is a number in the first direction. -/
def Measured (size : Vec2 S) : Prop := Scalar.isNaN size.x = false

omit [Scalar.Rounds S] in
/-- Zero is a number. -/
theorem zero_number : Scalar.isNaN (0 : S) = false :=
  (Scalar.Ordered.numbers_of_le (Scalar.Ordered.ofNat_nonneg 0)).1

/-- The plane part of a point that is read is made of numbers. -/
theorem point_measured :
    (Document.Triple.decodePoint (S := S)).Keeps fun point => Measured point.plane := by
  intro source sound point read
  obtain ⟨components, componentsRead, made⟩ := Decoded.of_bind read
  obtain rfl := Except.ok.inj made
  have scalars : (Decoder.scalar (S := S)).Keeps fun value => Scalar.isNaN value = false :=
    fun _ sound _ read => Document.scalar_number sound read
  have each := scalars.sequence _ source sound components componentsRead
  cases components with
  | nil => exact zero_number
  | cons first rest => exact each first List.mem_cons_self

/-- The size with which a rectangle starts is made of numbers. -/
theorem rectangle_measured :
    (Document.Rectangle.decode (S := S)).Keeps fun rectangle =>
      rectangle.size.content.Starts fun point => Measured point.plane := by
  have each : ∀ field ∈ Document.Rectangle.fields (S := S), field.Keeps fun rectangle =>
      rectangle.size.content.Starts fun point => Measured point.plane := by
    simp only [Document.Rectangle.fields, List.forall_mem_cons]
    refine ⟨.of ?_, .put (Document.Property.keeps point_measured) fun _ fit _ _ => fit, .of ?_,
      .of ?_, by simp⟩
    all_goals exact fun _ _ _ _ _ kept => kept
  exact Record.keeps _ trivial each

omit [Scalar.Rounds S] in
/-- A path can be made of every rectangle that has been read from a sound fragment. -/
theorem rectangle_bounded {authored : Document.Rectangle S}
    (measured : authored.size.content.Starts fun point => Measured point.plane) :
    (Contour.ofRectangle authored).unbounded = false := by
  have zero : Measured (Vec2.zero : Vec2 S) := zero_number
  have start : Measured (point Vec2.zero authored.size).value := Track.starts zero measured
  have side : Scalar.isNaN (point Vec2.zero authored.size).value.x = false := start
  rw [Contour.ofRectangle, Contour.unbounded, Path.unbounded, side, Bool.false_and]

/-! ## Contents -/

namespace Build

variable [Scalar P] [Widen S P] (settings : Trim.Settings)

/-- The kind of a shape is sound if its fragment is. -/
theorem kind_sound (name tag : String) {fragment : Value} (sound : fragment.Sound)
    {kind : Kind S P} (made : kindOf settings name tag fragment = some kind) : kind.Sound := by
  unfold kindOf at made
  split at made
  case h_1 =>
    obtain rfl := Option.some.inj made
    trivial
  case h_2 =>
    obtain ⟨authored, read, rfl⟩ := Option.map_eq_some_iff.mp made
    exact rectangle_bounded (read_kept rectangle_measured sound read)
  case h_12 => cases made
  all_goals
    obtain ⟨authored, -, rfl⟩ := Option.map_eq_some_iff.mp made
  all_goals trivial

omit [Scalar.Ordered S] [Scalar.Rounds S] in
/-- Shapes are sound together if they are one by one. -/
theorem shapes_sound {items : List Value} (each : ∀ item ∈ items, ∀ next (made : Node S P × Nat),
      shape settings item next = some made → made.1.Sound) (next : Nat) :
    ∀ node ∈ (shapes settings items next : List (Node S P) × Nat).1, node.Sound := by
  induction items generalizing next with
  | nil => simp [shapes]
  | cons item rest inductionHypothesis =>
    obtain ⟨here, behind⟩ := List.forall_mem_cons.mp each
    cases built : (shape settings item next : Option (Node S P × Nat)) with
    | none => simpa only [shapes, built] using inductionHypothesis behind next
    | some made =>
      simp only [shapes, built]
      exact List.forall_mem_cons.mpr ⟨here next made built, inductionHypothesis behind made.2⟩

/-- A shape is sound that has been read from a sound fragment, and so are those in it. -/
theorem shape_sound {fragment : Value} (sound : fragment.Sound) :
    (∀ next (made : Node S P × Nat), shape settings fragment next = some made → made.1.Sound) ∧
      ∀ item ∈ listed fragment, ∀ next (made : Node S P × Nat),
        shape settings item next = some made → made.1.Sound := by
  have whole := sound
  induction sound with
  | atom _ =>
    exact ⟨fun next made built => by simp [shape] at built, by simp [listed, Value.items?]⟩
  | list each inductionHypothesis =>
    exact ⟨fun next made built => by simp [shape] at built,
      fun item among => (inductionHypothesis item among (each item among)).1⟩
  | @object members each inductionHypothesis =>
    refine ⟨fun next made built => ?_, by simp [listed, Value.items?]⟩
    rw [shape_made] at built
    obtain ⟨⟨head, kind⟩, readable, made⟩ := Option.map_eq_some_iff.mp built
    obtain ⟨tag, known⟩ := head_kind settings _ next head kind readable
    have own := kind_sound settings head.name tag whole known
    have below : ∀ child ∈ (shapes settings (itemsOf members) (next + 1) :
        List (Node S P) × Nat).1, child.Sound := by
      refine shapes_sound settings (fun item among => ?_) (next + 1)
      obtain ⟨member, isMember, inside⟩ := items_of_listed members item among
      exact (inductionHypothesis member isMember (each member isMember)).2 item inside
    dsimp only at made
    split at made
    · obtain rfl := made
      exact Node.sound_mk own (by simp) fun child among => below child ((mem_arranged ..).mp among)
    · obtain rfl := made
      exact Node.sound_mk own (by simp) (by simp)

variable (workshop : Workshop S)

/-- A layer is filled with sound contents from a sound fragment. -/
theorem fill_layer_sound {layer : Node S P} (layerSound : layer.Sound) {fragment : Value}
    (sound : fragment.Sound) (next : Nat) : (fillLayer workshop layer fragment next).1.Sound := by
  unfold fillLayer
  split
  next => exact layerSound
  next authored read =>
    obtain ⟨head, kind, effects, others⟩ := layer
    have shapesSound := (read_kept layer_sound sound read).2
    obtain ⟨kindSound, effectsSound, -⟩ := Node.forall_listing.mp layerSound
    have own : (setTransform (Transform.ofDocument authored.transform) kind).Sound := by
      cases kind <;> exact kindSound
    refine Node.sound_mk own effectsSound fun child among => ?_
    exact shapes_sound workshop.settings
      (fun item among => (shape_sound workshop.settings (shapesSound item among)).1) next child
      ((mem_arranged ..).mp among)

/-- The layers of the second round are sound. What is put in place of expressions has been authored
in the layers as they are by then. -/
theorem fill_layers_sound {heads : List (Node S P × Value)} {filled : List (Node S P)}
    (before : ∀ layer ∈ filled, layer.Sound)
    (headsSound : ∀ entry ∈ heads, entry.1.Sound ∧ entry.2.Sound) (next : Nat) :
    ∀ layer ∈ (fillLayers workshop filled heads next).1, layer.Sound := by
  induction heads generalizing filled next with
  | nil => exact before
  | cons entry rest inductionHypothesis =>
    obtain ⟨layer, fragment⟩ := entry
    obtain ⟨⟨layerSound, fragmentSound⟩, behind⟩ := List.forall_mem_cons.mp headsSound
    have ground : (rootWith (filled ++ layer :: rest.map (·.1))).Sound := by
      refine Node.sound_mk trivial (by simp) fun child among => ?_
      rcases List.mem_append.mp among with done | due
      · exact before child done
      · rcases List.mem_cons.mp due with rfl | later
        · exact layerSound
        · obtain ⟨entry, isEntry, rfl⟩ := List.mem_map.mp later
          exact (behind entry isEntry).1
    have resolved := Expression.resolve_sound ground fragmentSound
    simp only [fillLayers]
    refine inductionHypothesis (fun node among => ?_) behind _
    rcases List.mem_append.mp among with done | new
    · exact before node done
    · obtain rfl := List.mem_singleton.mp new
      exact fill_layer_sound workshop layerSound resolved next

end Build

/-- Of every shape in a tree that has just been built a path can be made, if the layers of the
document are sound, as those of a text are. -/
theorem built_bounded [Scalar P] [Widen S P] [Measure P] (settings : Trim.Settings)
    (document : Document S) (sound : ∀ layer ∈ document.layers, layer.Sound) :
    ∀ node ∈ (Tree.ofDocument settings document : Tree S P).root.listing,
      node.isUnbounded = false := by
  let workshop : Workshop S := ⟨settings, document.assets⟩
  have heads : ∀ entry ∈ (Build.layerHeads workshop document.layers 1 :
      List (Node S P × Value) × Nat).1, entry.1.Sound ∧ entry.2.Sound := fun entry among =>
    ⟨Build.layer_heads_sound workshop sound 1 entry among,
      sound _ (Build.layer_heads_fragments workshop document.layers 1 entry among)⟩
  have whole : (Tree.ofDocument settings document : Tree S P).root.Sound := by
    refine Node.sound_mk trivial (by simp) fun layer among => ?_
    rw [Build.mem_mattes_first, List.mem_reverse] at among
    exact Build.fill_layers_sound workshop (by simp) heads _ layer among
  exact fun node among => (whole node among).bounded

end Scene

end VectorMotion
