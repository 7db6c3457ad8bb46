import VectorMotion.Proofs.Keyframe.Bounds
import VectorMotion.Proofs.Scene.History

/-!
# Colours between zero and one

A colour of a document may be written up to one or up to 255. Which of the two it is has to be told
from its components, each colour on its own: if red, green and blue are at most one, the colour is
taken as it is. So they always end up between zero and one, and on the way from one colour to another
they stay there if the easing does. The opacity does not, when it is written up to 255 on a colour
that is dark.
-/

namespace VectorMotion

open Document

/-! ## Values that stay of a kind -/

section Kinds

variable {V W : Type} [Blend ℝ V]

/-- Whether values of a kind give values of that kind when they are mixed. -/
def Blend.Closed (kept : V → Prop) : Prop :=
  ∀ a b : V, kept a → kept b → ∀ way ∈ Set.Icc (0 : ℝ) 1,
    kept (Blend.mix a b way) ∧
      ∀ tangentOut tangentIn, kept (Blend.mixAlong a b way tangentOut tangentIn)

/-- A span between values of a kind, with easing that stays between them. -/
structure Span.Stays (kept : V → Prop) (span : Span ℝ V) : Prop where
  start : kept span.start
  finish : kept span.finish
  easeOut : span.easeOut.y ∈ Set.Icc (0 : ℝ) 1
  easeIn : span.easeIn.y ∈ Set.Icc (0 : ℝ) 1

/-- A track of values of a kind. -/
structure Track.Stays (kept : V → Prop) (track : Track ℝ V) : Prop where
  value : kept track.value
  spans : ∀ span ∈ track.spans, span.Stays kept

/-- Whether all values that are authored are of a kind. -/
def Document.Content.Each {S : Type} (kept : W → Prop) : Content S W → Prop
  | .absent => True
  | .fixed value => kept value
  | .keyed keys => ∀ key ∈ keys, (∀ value ∈ key.start, kept value) ∧ ∀ value ∈ key.finish, kept value

section Each

variable {S : Type} {first second : W → Prop} {content : Content S W}

omit [Blend ℝ V] in
/-- What holds of every authored value holds if something stronger does. -/
theorem Document.Content.Each.imp (each : content.Each first)
    (implied : ∀ value, first value → second value) : content.Each second := by
  cases content with
  | absent => trivial
  | fixed value => exact implied value each
  | keyed keys =>
    exact fun key member => ⟨fun value start => implied value ((each key member).1 value start),
      fun value finish => implied value ((each key member).2 value finish)⟩

/-- Two things that hold of every authored value hold together. -/
theorem Document.Content.Each.both (each : content.Each first) (also : content.Each second) :
    content.Each fun value => first value ∧ second value := by
  cases content with
  | absent => trivial
  | fixed value => exact ⟨each, also⟩
  | keyed keys =>
    exact fun key member =>
      ⟨fun value start => ⟨(each key member).1 value start, (also key member).1 value start⟩,
        fun value finish => ⟨(each key member).2 value finish, (also key member).2 value finish⟩⟩

end Each

/-- Whether no control point of the easing lies above or below both ends of the way. -/
def Document.Content.Gentle : Content ℝ W → Prop
  | .keyed keys => ∀ key ∈ keys, (∀ handle ∈ key.easeOut, handle.y ∈ Set.Icc (0 : ℝ) 1) ∧
      ∀ handle ∈ key.easeIn, handle.y ∈ Set.Icc (0 : ℝ) 1
  | _ => True

variable {kept : V → Prop}

/-- The value of a span is of the kind of its ends. -/
theorem Span.Stays.value_at {span : Span ℝ V} (stays : span.Stays kept) (closed : Blend.Closed kept)
    (curved : Bool) (time : ℝ) : kept (span.valueAt curved time) := by
  unfold Span.valueAt
  split
  · exact stays.start
  · dsimp only
    split
    · exact stays.finish
    · have mixed (fraction : ℝ) := closed _ _ stays.start stays.finish _
        (Easing.ease_within stays.easeOut stays.easeIn fraction)
      split
      · exact (mixed _).2 _ _
      · exact (mixed _).1

namespace Track

/-- Bringing a track to a time keeps its values of a kind. -/
theorem Stays.update {track : Track ℝ V} (stays : track.Stays kept) (closed : Blend.Closed kept)
    (time : ℝ) : (track.update time).Stays kept := by
  unfold Track.update
  split
  · refine ⟨?_, stays.spans⟩
    change kept (track.valueAt time)
    unfold valueAt
    split
    next span found =>
      simp only [spanAt?] at found
      split at found
      · exact (stays.spans span (Array.mem_of_getElem? found)).value_at closed _ _
      · cases found
    · split
      next first isFirst => exact (stays.spans first (Array.mem_of_getElem? isFirst)).start
      next => exact stays.value
  · exact stays

/-- Any number of times later, a track still has values of a kind. -/
theorem Stays.update_all {track : Track ℝ V} (stays : track.Stays kept)
    (closed : Blend.Closed kept) (times : List ℝ) : (times.foldl Track.update track).Stays kept := by
  induction times generalizing track with
  | nil => exact stays
  | cons time rest inductionHypothesis => exact inductionHypothesis (stays.update closed time)

variable {convert : W → V}

/-- A control point that is left out is at the start of the way or at its end. -/
theorem control_gentle {handle : Option (Handle ℝ)} {default : Vec2 ℝ}
    (gentle : ∀ given ∈ handle, given.y ∈ Set.Icc (0 : ℝ) 1)
    (otherwise : default.y ∈ Set.Icc (0 : ℝ) 1) :
    (Span.control handle default).y ∈ Set.Icc (0 : ℝ) 1 := by
  cases handle with
  | none => exact otherwise
  | some given => exact gentle given rfl

/-- A handle at the origin does not overshoot. -/
theorem zero_gentle : (Vec2.zero : Vec2 ℝ).y ∈ Set.Icc (0 : ℝ) 1 := by
  simp [Vec2.zero, Exact.numeral_zero]

/-- Neither does one at the opposite corner. -/
theorem one_gentle : (Vec2.both (Scalar.ofNat 1) : Vec2 ℝ).y ∈ Set.Icc (0 : ℝ) 1 := by
  simp [Vec2.both, Scalar.ofNat]

omit [Blend ℝ V] in
/-- The spans of keyframes stay between the values that are authored, and the one in front. -/
theorem spans_stay {previous : V} (before : kept previous) {keys : List (Keyframe ℝ W)}
    (each : (Content.keyed keys).Each fun value => kept (convert value))
    (gentle : (Content.keyed keys).Gentle) :
    ∀ span ∈ spansFrom convert previous keys, span.Stays kept := by
  have begun (key : Keyframe ℝ W) (previous : V) (before : kept previous)
      (each : ∀ value ∈ key.start, kept (convert value)) :
      kept ((key.start.map convert).getD previous) := by
    cases start : key.start with
    | none => exact before
    | some value => exact each value start
  fun_induction spansFrom convert previous keys with
  | case1 => simp
  | case2 previous last =>
    obtain ⟨own, -⟩ := List.forall_mem_cons.mp each
    have start := begun last previous before own.1
    exact List.forall_mem_singleton.mpr ⟨start, start, zero_gentle, one_gentle⟩
  | case3 previous key next rest start finish inductionHypothesis =>
    obtain ⟨own, later⟩ := List.forall_mem_cons.mp each
    obtain ⟨ownGentle, laterGentle⟩ := List.forall_mem_cons.mp gentle
    obtain ⟨nextOwn, -⟩ := List.forall_mem_cons.mp later
    have startKept : kept start := begun key previous before own.1
    have finishKept : kept finish := by
      cases ends : key.finish.or next.start with
      | none => simpa [finish, ends] using startKept
      | some value =>
        have authored : kept (convert value) := by
          obtain isFinish | ⟨-, isStart⟩ := Option.or_eq_some_iff.mp ends
          · exact own.2 value isFinish
          · exact nextOwn.1 value isStart
        simpa [finish, ends] using authored
    exact List.forall_mem_cons.mpr
      ⟨⟨startKept, finishKept, control_gentle ownGentle.1 zero_gentle,
        control_gentle ownGentle.2 one_gentle⟩, inductionHypothesis finishKept later laterGentle⟩

omit [Blend ℝ V] in
/-- A property of values of a kind is tracked by values of that kind. -/
theorem Stays.of_property {default : V} (otherwise : kept default) {property : Property ℝ W}
    (each : property.content.Each fun value => kept (convert value))
    (gentle : property.content.Gentle) : (Track.ofProperty convert default property).Stays kept := by
  unfold Track.ofProperty
  split
  next absent => exact ⟨otherwise, by simp [fixed]⟩
  next value isFixed =>
    rw [isFixed] at each
    exact ⟨each, by simp [fixed]⟩
  next keys isKeyed =>
    rw [isKeyed] at each gentle
    have spans := spans_stay otherwise each gentle
    unfold ofKeyframes
    dsimp only
    split
    next none => exact ⟨otherwise, by simp [fixed]⟩
    next first rest some =>
      rw [some] at spans
      exact ⟨(spans first List.mem_cons_self).start, by simpa [some] using spans⟩

end Track

end Kinds

/-! ## Colours -/

namespace Scene

/-- A colour with components between zero and one, and an opacity up to a bound. -/
structure Normal (bound : ℝ) (color : Rgba ℝ) : Prop where
  red : color.red ∈ Set.Icc (0 : ℝ) 1
  green : color.green ∈ Set.Icc (0 : ℝ) 1
  blue : color.blue ∈ Set.Icc (0 : ℝ) 1
  alpha : color.alpha ∈ Set.Icc (0 : ℝ) bound

/-- A colour with components of up to 255. -/
structure InBytes (color : Rgba ℝ) : Prop where
  red : color.red ∈ Set.Icc (0 : ℝ) 255
  green : color.green ∈ Set.Icc (0 : ℝ) 255
  blue : color.blue ∈ Set.Icc (0 : ℝ) 255
  alpha : color.alpha ∈ Set.Icc (0 : ℝ) 255

/-- Whether the opacity of a colour is at most one, or one of the other components tells that it is
written up to 255. -/
def Told (color : Rgba ℝ) : Prop :=
  color.alpha ≤ 1 ∨ 1 < color.red ∨ 1 < color.green ∨ 1 < color.blue

/-- A component in bytes becomes a fraction. -/
theorem byte_fraction {component : ℝ} (inBytes : component ∈ Set.Icc (0 : ℝ) 255) :
    byteFraction component ∈ Set.Icc (0 : ℝ) 1 := by
  obtain ⟨nonneg, below⟩ := inBytes
  rw [byteFraction, Exact.numeral]
  exact ⟨by positivity, (div_le_one (by norm_num)).mpr (by exact_mod_cast below)⟩

/-- A mean of two numbers lies where they do. -/
theorem mixed_within {a b low high way : ℝ} (first : a ∈ Set.Icc low high)
    (second : b ∈ Set.Icc low high) (within : way ∈ Set.Icc (0 : ℝ) 1) :
    a + (b - a) * way ∈ Set.Icc low high :=
  Set.uIcc_subset_Icc first second (Blend.number_within a b within)

/-- Colours that are normal up to a bound stay so when they are mixed. -/
theorem normal_closed (bound : ℝ) : Blend.Closed (Normal bound) := by
  intro a b first second way within
  have mixed : Normal bound (a.lerp b way) :=
    ⟨mixed_within first.red second.red within, mixed_within first.green second.green within,
      mixed_within first.blue second.blue within, mixed_within first.alpha second.alpha within⟩
  exact ⟨mixed, fun _ _ => mixed⟩

/-- A colour is read in bytes exactly if one of red, green and blue is above one. -/
theorem normal_color_exact (color : Rgba ℝ) : normalColor color =
    if 1 < color.red ∨ 1 < color.green ∨ 1 < color.blue then
      ⟨byteFraction color.red, byteFraction color.green, byteFraction color.blue,
        if 1 < color.alpha then byteFraction color.alpha else color.alpha⟩
    else color := by
  simp only [normalColor, Exact.numeral_one, Bool.or_eq_true, decide_eq_true_eq, or_assoc]

/-- Of a colour in bytes red, green and blue are brought between zero and one. Its opacity is if it can
be told to be in bytes. -/
theorem normal_color {color : Rgba ℝ} (inBytes : InBytes color) : Normal 255 (normalColor color) ∧
    (Normal 1 (normalColor color) ↔ Told color) := by
  obtain ⟨red, green, blue, alpha⟩ := inBytes
  by_cases told : 1 < color.red ∨ 1 < color.green ∨ 1 < color.blue
  · let fraction := if 1 < color.alpha then byteFraction color.alpha else color.alpha
    have below : fraction ∈ Set.Icc (0 : ℝ) 1 := by
      by_cases above : 1 < color.alpha
      · rw [show fraction = byteFraction color.alpha from if_pos above]
        exact byte_fraction alpha
      · rw [show fraction = color.alpha from if_neg above]
        exact ⟨alpha.1, not_lt.mp above⟩
    have made : normalColor color = ⟨byteFraction color.red, byteFraction color.green,
        byteFraction color.blue, fraction⟩ := (normal_color_exact color).trans (if_pos told)
    have normal : Normal 1 (normalColor color) := by
      rw [made]
      exact ⟨byte_fraction red, byte_fraction green, byte_fraction blue, below⟩
    exact ⟨{ normal with alpha := ⟨normal.alpha.1, normal.alpha.2.trans (by norm_num)⟩ },
      iff_of_true normal (.inr told)⟩
  · have kept : normalColor color = color := (normal_color_exact color).trans (if_neg told)
    push Not at told
    obtain ⟨redLe, greenLe, blueLe⟩ := told
    have normal : Normal 255 color :=
      ⟨⟨red.1, redLe⟩, ⟨green.1, greenLe⟩, ⟨blue.1, blueLe⟩, alpha⟩
    rw [kept]
    refine ⟨normal, fun normal => .inl normal.alpha.2, fun told => ?_⟩
    have below : color.alpha ≤ 1 := by
      obtain below | red | green | blue := told
      · exact below
      · exact absurd red redLe.not_gt
      · exact absurd green greenLe.not_gt
      · exact absurd blue blueLe.not_gt
    exact { normal with alpha := ⟨alpha.1, below⟩ }

/-- Black is normal. -/
theorem black_normal {bound : ℝ} (above : 1 ≤ bound) : Normal bound Rgba.black := by
  have nonneg : (0 : ℝ) ≤ bound := zero_le_one.trans above
  simp only [Rgba.black, Exact.numeral_zero, Exact.numeral_one]
  constructor <;> simp [above]

/-- A property that is a colour, with all that is authored in bytes, and gentle easing. -/
structure Bytewise (property : Document.Color ℝ) : Prop where
  inBytes : property.content.Each InBytes
  gentle : property.content.Gentle

/-- The colours that a property is tracked by have red, green and blue between zero and one, and an
opacity that is not above 255. It is not above one if it can be told of all colours that are authored
whether theirs is in bytes. -/
theorem Bytewise.tracked {property : Document.Color ℝ} (authored : Bytewise property) :
    (color property).Stays (Normal 255) ∧
      (property.content.Each Told → (color property).Stays (Normal 1)) := by
  refine ⟨.of_property (black_normal (by norm_num)) ?_ authored.gentle,
    fun told => .of_property (black_normal le_rfl) ?_ authored.gentle⟩
  · exact authored.inBytes.imp fun _ inBytes => (normal_color inBytes).1
  · exact (authored.inBytes.both told).imp fun _ both => (normal_color both.1).2.mpr both.2

/-- Any number of times later this still holds of the colour of the property. -/
theorem Bytewise.normal {property : Document.Color ℝ} (authored : Bytewise property)
    (times : List ℝ) : Normal 255 (times.foldl Track.update (color property)).value ∧
      (property.content.Each Told →
        Normal 1 (times.foldl Track.update (color property)).value) :=
  ⟨(authored.tracked.1.update_all (normal_closed 255) times).value,
    fun told => ((authored.tracked.2 told).update_all (normal_closed 1) times).value⟩

/-- A colour that does not change is told or not, once for all times. -/
theorem Bytewise.fixed_normal {property : Document.Color ℝ} (authored : Bytewise property)
    {value : Rgba ℝ} (isFixed : property.content = .fixed value) (times : List ℝ) :
    Normal 1 (times.foldl Track.update (color property)).value ↔ Told value := by
  have kept : times.foldl Track.update (color property) = color property := by
    induction times with
    | nil => rfl
    | cons time rest inductionHypothesis =>
      have still : (color property).update time = color property := by
        rw [color, Track.ofProperty, isFixed]
        rfl
      rw [List.foldl_cons, still, inductionHypothesis]
  have inBytes := authored.inBytes
  rw [isFixed] at inBytes
  rw [kept, color, Track.ofProperty, isFixed]
  exact (normal_color inBytes).2

/-! ## Nodes with a colour -/

section Nodes

variable {S P : Type} [Scalar S]

namespace Kind

/-- The colour that a node gives to shapes, over time. -/
def colors? : Kind S P → Option (Track S (Rgba S))
  | fill content => some content.color
  | stroke content => some content.color
  | flood content => some content.color
  | _ => none

/-- A node that is made from a property for its colour. -/
inductive MadeWith (property : Document.Color S) : Kind S P → Prop where
  | fill (authored : Document.Fill S) (same : authored.color = property) :
    MadeWith property (.fill (Fill.ofDocument authored))
  | stroke (authored : Document.Stroke S) (same : authored.color = property) :
    MadeWith property (.stroke (Stroke.ofDocument authored))
  | flood (effect : Document.Effect)
      (same : controlProperty Document.decodeColor effect.parts[Flood.colorSlot]? = property) :
    MadeWith property (.flood (Flood.ofDocument effect))

/-- A paint that is made with a colour has the track of that colour. -/
theorem MadeWith.colors {property : Document.Color S} {kind : Kind S P}
    (made : kind.MadeWith property) : kind.colors? = some (color property) := by
  cases made with
  | fill _ same | stroke _ same | flood _ same => exact same ▸ rfl

variable [Scalar P] [Widen S P] [Measure P]

/-- Bringing a paint to a time brings its colours there. -/
theorem colors_update (kind : Kind S P) (time : S) (around : Option (Trim.Window S)) :
    (kind.updateLeaf time around).colors? = kind.colors?.map (·.update time) := by
  cases kind <;> rfl

/-- Any number of times later, the colour of a node is that of its property. -/
theorem MadeWith.colors_later {property : Document.Color S} {kind : Kind S P}
    (made : kind.MadeWith property) (times : List S) :
    (times.foldl (fun kind time => kind.updateLeaf time none) kind).colors? =
      some (times.foldl Track.update (color property)) := by
  have later (other : Kind S P) :
      (times.foldl (fun kind time => kind.updateLeaf time none) other).colors? =
        other.colors?.map (times.foldl Track.update) := by
    induction times generalizing other with
    | nil => simp
    | cons time rest inductionHypothesis =>
      rw [List.foldl_cons, inductionHypothesis, colors_update, Option.map_map]
      rfl
  rw [later, made.colors]
  rfl

end Kind

end Nodes

/-! ## Scenes -/

section Kinds

variable {S P : Type} {holds : Kind S P → Prop}

/-- Changing the kind of a node keeps what holds of all kinds. -/
theorem Node.modify_kept {change : Kind S P → Kind S P}
    (changed : ∀ kind, holds kind → holds (change kind)) (id : Nat) {top : Node S P}
    (all : ∀ node ∈ top.listing, holds node.kind) :
    ∀ node ∈ (top.modify id (Node.mapKind change)).listing, holds node.kind := by
  induction top with
  | mk head kind effects children effectsKept childrenKept =>
    obtain ⟨top, inEffects, inChildren⟩ := Node.forall_listing.mp all
    simp only [Node.modify, Node.modifyAll_map]
    split
    · exact Node.forall_listing.mpr ⟨changed kind top, inEffects, inChildren⟩
    · refine Node.forall_listing.mpr ⟨top, ?_, ?_⟩
      · exact List.forall_mem_map.mpr fun effect member =>
          effectsKept effect member (inEffects effect member)
      · exact List.forall_mem_map.mpr fun child member =>
          childrenKept child member (inChildren child member)

variable [Scalar S] [Scalar P] [Widen S P] [Measure P]

/-- Bringing a tree to a time keeps what holds of all kinds, if it does so for each. -/
theorem Node.update_kept
    (leaf : ∀ kind time around, holds kind → holds (kind.updateLeaf time around))
    (container : ∀ kind time trim owns, holds kind → holds (kind.updateContainer time trim owns))
    (time : S) (around : Option (Trim.Window S)) {top : Node S P}
    (all : ∀ node ∈ top.listing, holds node.kind) :
    ∀ node ∈ (top.update time around).listing, holds node.kind := by
  induction top generalizing time around with
  | mk head kind effects children effectsKept childrenKept =>
    obtain ⟨top, inEffects, inChildren⟩ := Node.forall_listing.mp all
    cases hidden : head.hidden with
    | true => rwa [Node.update_hidden _ _ _ _ _ _ hidden]
    | false =>
      cases holding : kind.isContainer with
      | true =>
        rw [Node.update_container _ _ _ _ _ _ hidden holding]
        refine Node.forall_listing.mpr ⟨container kind _ _ _ top, ?_, ?_⟩
        · exact List.forall_mem_map.mpr fun effect member =>
            effectsKept effect member _ _ (inEffects effect member)
        · exact List.forall_mem_map.mpr fun child member =>
            childrenKept child member _ _ (inChildren child member)
      | false =>
        rw [Node.update_leaf _ _ _ _ _ _ hidden holding]
        exact Node.forall_listing.mpr ⟨leaf kind _ _ top, inEffects, inChildren⟩

/-- What holds of all kinds of node that a document gives holds in every state of its scene, if it is
kept when a node is brought to a time and when a layer learns whom it follows. -/
theorem Reachable.kept
    (leaf : ∀ kind time around, holds kind → holds (kind.updateLeaf time around))
    (container : ∀ kind time trim owns, holds kind → holds (kind.updateContainer time trim owns))
    (layer : ∀ layer other, holds (.layer layer) → holds (.layer other))
    {settings : Trim.Settings} {document : Document S}
    (built : ∀ node ∈ (Tree.ofDocument settings document).root.listing, holds node.kind)
    {scene : Scene S P} (reachable : Reachable settings document scene) :
    ∀ node ∈ scene.tree.root.listing, holds node.kind := by
  induction reachable with
  | loaded => exact Node.update_kept leaf container _ _ built
  | updated scene frame before inductionHypothesis =>
    exact Node.update_kept leaf container _ _ inductionHypothesis
  | settled scene ids before inductionHypothesis =>
    unfold Tree.settle
    dsimp only
    generalize scene.tree.layers = layers
    generalize scene.tree = tree at inductionHypothesis
    induction ids generalizing tree with
    | nil => exact inductionHypothesis
    | cons id rest later =>
      refine later _ (Node.modify_kept (fun kind own => ?_) id inductionHypothesis)
      cases kind with
      | layer content => exact layer content _ own
      | _ => exact own

end Kinds

/-- A node that is made from a told colour. -/
def Kind.MadeTold {P : Type} (kind : Kind ℝ P) : Prop :=
  ∃ property, kind.MadeWith property ∧ Bytewise property ∧ property.content.Each Told

/-- A node of which the colour stays between zero and one. -/
def Kind.Normal {P : Type} (kind : Kind ℝ P) : Prop :=
  ∀ track ∈ kind.colors?, track.Stays (Scene.Normal 1)

section States

variable {P : Type} {kind : Kind ℝ P}

/-- What is made with colours as documents tell them is normal. -/
theorem Kind.MadeTold.normal (made : kind.MadeTold) : kind.Normal := by
  obtain ⟨property, made, authored, told⟩ := made
  intro track isColors
  obtain rfl := Option.some.inj (made.colors.symm.trans isColors)
  exact authored.tracked.2 told

variable [Scalar P] [Widen ℝ P] [Measure P]

/-- Normal colours stay so at every time. -/
theorem Kind.Normal.update (normal : kind.Normal) (time : ℝ) (around : Option (Trim.Window ℝ)) :
    (kind.updateLeaf time around).Normal := by
  intro track isColors
  rw [Kind.colors_update] at isColors
  obtain ⟨before, isBefore, rfl⟩ := Option.map_eq_some_iff.mp isColors
  exact (normal before isBefore).update (normal_closed 1) time

/-- Where all colours of a document can be told, they are between zero and one in every state of its
scene. -/
theorem Reachable.normal {settings : Trim.Settings} {document : Document ℝ}
    (built : ∀ node ∈ (Tree.ofDocument settings document : Tree ℝ P).root.listing,
      node.kind.colors? ≠ none → node.kind.MadeTold) {scene : Scene ℝ P}
    (reachable : Reachable settings document scene) :
    ∀ node ∈ scene.tree.root.listing, node.kind.Normal := by
  refine reachable.kept (fun kind time around normal => normal.update time around)
    (fun kind time trim owns normal => ?_) (fun _ _ _ _ isColors => nomatch isColors) ?_
  · cases kind <;> exact normal
  · intro node listed track isColors
    exact (built node listed (by simp [show node.kind.colors? = some track from isColors])).normal
      track isColors

end States

end Scene

end VectorMotion
