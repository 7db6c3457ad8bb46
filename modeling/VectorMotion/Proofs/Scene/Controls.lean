import VectorMotion.Proofs.Scene.Agreement
import VectorMotion.Proofs.Scene.Likeness

/-!
# Controls of fragments that are alike

The effects of a layer have no expressions replaced. So the nodes of the effects are the same with
expressions and without, whatever stands under the value of a control. Only what has been authored
for a slider can differ, and that is in normal form if the fragment is.

This is told of any pairs of values that differ in what effects do not read, and in the values of
controls. An effect is read with a bound on how deep others are nested in it. The bound comes from
the source, and may be lower for the second value of a pair; it is still high enough.
-/

namespace VectorMotion.Json

namespace Source

variable (origin : Origin)

/-- An item is not higher than all items. -/
theorem height_item {items : List Value} {item : Value} (among : item ∈ items) :
    (standing origin item).height ≤ itemsHeight (standingItems origin items) := by
  induction items with
  | nil => cases among
  | cons first rest inductionHypothesis =>
    rw [standingItems, itemsHeight]
    rcases List.mem_cons.mp among with rfl | behind
    · exact le_max_left ..
    · exact le_max_of_le_right (inductionHypothesis behind)

/-- Nor is what stands under a name. -/
theorem height_member {members : List (String × Value)} {member : String × Value}
    (among : member ∈ members) :
    (standing origin member.2).height ≤ membersHeight (standingMembers origin members) := by
  induction members with
  | nil => cases among
  | cons first rest inductionHypothesis =>
    rw [standingMembers, membersHeight]
    rcases List.mem_cons.mp among with rfl | behind
    · exact le_max_left ..
    · exact le_max_of_le_right (inductionHypothesis behind)

end Source

end VectorMotion.Json

namespace VectorMotion

open Json Scene.Expression

namespace Document.Effect

/-- Two effects that say the same but for the values of controls. Those of the first are in normal
form. -/
inductive Like : Effect → Effect → Prop where
  | mk (kind : Nat) (name matchName : Option String) {parts others : List Effect}
      {value : Option Value} (other : Option Value) (alike : List.Forall₂ Like parts others)
      (whole : ∀ authored, value = some authored → authored.normal = authored) :
      Like (.mk kind name matchName parts value) (.mk kind name matchName others other)

/-- The names of the fields of an effect. -/
def fieldNames : List String := ["ty", "nm", "mn", "ef", "v"]

/-- A field of an effect goes by no names but these. -/
theorem fields_named (decodePart : Decoder Effect) :
    ∀ field ∈ fields decodePart, ∀ name, field.goesBy name → name ∈ fieldNames := by
  simp [fields, Record.Field.of, Record.Field.goesBy, fieldNames]

/-- Pairs of values from which effects are read alike. Both are in normal form. They are of the same
kind, and have twins for their parts where fields of an effect stand; what stands under other names
may be anything, and may be missing in the second. -/
structure Twinning (twins : Value → Value → Prop) : Prop where
  normal : ∀ {value other}, twins value other → value.normal = value ∧ other.normal = other
  atom : ∀ {atom other}, twins (.atom atom) other → other = .atom atom
  list : ∀ {items other}, twins (.list items) other → ∃ change : Value → Value,
    other = .list (items.map change) ∧ ∀ item ∈ items, twins item (change item)
  object : ∀ {members other}, twins (.object members) other →
    ∃ (keep : String × Value → Bool) (change : String × Value → Value),
      other = .object ((members.filter keep).map fun member => (member.1, change member)) ∧
        ∀ member ∈ members, member.1 ∈ fieldNames →
          keep member = true ∧ twins member.2 (change member)

variable {origin : Origin}

/-- The value of a control is read as it stands. -/
theorem control_reading (entered : origin.enter = .ok ()) {value : Value}
    (normal : value.normal = value) :
    ∃ read, (Decoder.optional Source.toValue).reading origin value = some read ∧
      ∀ authored, read = some authored → authored = value := by
  have whole := Source.whole_standing entered value
  rw [normal] at whole
  have itself : ∀ authored, some value = some authored → authored = value :=
    fun _ same => (Option.some.inj same).symm
  rw [Decoder.reading]
  cases value with
  | atom atom =>
    cases atom with
    | null => exact ⟨none, rfl, by simp⟩
    | _ => exact ⟨_, rfl, itself⟩
  | list items =>
    rw [Source.standing] at whole ⊢
    rw [Decoder.optional, whole]
    · exact ⟨_, rfl, itself⟩
    all_goals simp
  | object members =>
    rw [Source.standing] at whole ⊢
    rw [Decoder.optional, whole]
    · exact ⟨_, rfl, itself⟩
    all_goals simp

section

variable {twins : Value → Value → Prop} (twinning : Twinning twins)
include twinning

/-- Twins are the same to a decoder that reads nothing from what has parts. -/
theorem Twinning.plain {value other : Value} (twin : twins value other) {α : Type}
    {decode : Decoder α} (plain : decode.Plain) :
    decode.reading origin value = decode.reading origin other := by
  cases value with
  | atom atom => rw [twinning.atom twin]
  | list items =>
    obtain ⟨change, rfl, -⟩ := twinning.list twin
    rw [plain origin _ (by simp), plain origin _ (by simp)]
  | object members =>
    obtain ⟨keep, change, rfl, -⟩ := twinning.object twin
    rw [plain origin _ (by simp), plain origin _ (by simp)]

/-- The fields of an effect read alike what can be read alike as a list of effects. -/
theorem fields_alike (entered : origin.enter = .ok ()) (bound counterpart : Nat)
    (given : Value → Value → Prop) (areTwins : ∀ value other, given value other → twins value other)
    (lists : ∀ value other, given value other → Option.Rel (List.Forall₂ Like)
      ((Decoder.list (decodeBelow bound)).reading origin value)
      ((Decoder.list (decodeBelow counterpart)).reading origin other)) :
    List.Forall₂ (fun field counterpart => Record.Namesakes field counterpart ∧
        ∀ value other, given value other → Option.Rel (Record.Moves Like)
          (Decoder.reading origin field.read value)
          (Decoder.reading origin counterpart.read other))
      (fields (decodeBelow bound)) (fields (decodeBelow counterpart)) := by
  have same {α : Type} {name : String} {decode : Decoder α} (plain : decode.Plain)
      (put : α → Effect → Effect) (moves : ∀ read, Record.Moves Like (put read) (put read))
      (value other : Value) (isGiven : given value other) :
      Option.Rel (Record.Moves Like)
        (Decoder.reading origin (Record.Field.of name decode put).read value)
        (Decoder.reading origin (Record.Field.of name decode put).read other) := by
    rw [Record.Field.of_reading, Record.Field.of_reading,
      twinning.plain (areTwins value other isGiven) plain]
    refine rel_map (rel_of_eq rfl) ?_
    rintro read _ rfl
    exact moves read
  refine .cons ⟨⟨rfl, rfl, rfl⟩, same .code _ ?_⟩ <|
    .cons ⟨⟨rfl, rfl, rfl⟩, same (.optional .text) _ ?_⟩ <|
    .cons ⟨⟨rfl, rfl, rfl⟩, same (.optional .text) _ ?_⟩ <|
    .cons ⟨⟨rfl, rfl, rfl⟩, fun value other isGiven => ?_⟩ <|
    .cons ⟨⟨rfl, rfl, rfl⟩, fun value other isGiven => ?_⟩ .nil
  · rintro read _ _ ⟨kind, name, matchName, other, alike, whole⟩
    exact .mk read name matchName other alike whole
  · rintro read _ _ ⟨kind, name, matchName, other, alike, whole⟩
    exact .mk kind read matchName other alike whole
  · rintro read _ _ ⟨kind, name, matchName, other, alike, whole⟩
    exact .mk kind name read other alike whole
  · rw [Record.Field.of_reading, Record.Field.of_reading]
    refine rel_map (lists value other isGiven) ?_
    rintro parts others alike _ _ ⟨kind, name, matchName, other, -, whole⟩
    exact .mk kind name matchName other alike whole
  · obtain ⟨normal, otherNormal⟩ := twinning.normal (areTwins value other isGiven)
    obtain ⟨read, first, standing⟩ := control_reading entered normal
    obtain ⟨_, second, -⟩ := control_reading entered otherNormal
    rw [Record.Field.of_reading, Record.Field.of_reading, first, second]
    refine .some ?_
    rintro _ _ ⟨kind, name, matchName, other, alike, -⟩
    refine .mk kind name matchName _ alike fun authored isAuthored => ?_
    rw [standing authored isAuthored, normal]

/-- Under bounds that are high enough, effects are read alike from twins, and so are lists of
effects. -/
theorem below_alike (entered : origin.enter = .ok ()) (value : Value) :
    ∀ other, twins value other → ∀ bound counterpart,
      ((Source.standing origin value).height < bound →
        (Source.standing origin other).height < counterpart →
          Option.Rel Like ((decodeBelow bound).reading origin value)
            ((decodeBelow counterpart).reading origin other)) ∧
      ((Source.standing origin value).height ≤ bound →
        (Source.standing origin other).height ≤ counterpart →
          Option.Rel (List.Forall₂ Like)
            ((Decoder.list (decodeBelow bound)).reading origin value)
            ((Decoder.list (decodeBelow counterpart)).reading origin other)) := by
  have start : Like blank blank := .mk 0 none none none .nil (by simp)
  have below {bound : Nat} {value : Value} :
      (decodeBelow (bound + 1)).reading origin value =
        (Record.decode "Effect" blank (fields (decodeBelow bound))).reading origin value := rfl
  induction value using Value.by_parts with
  | atom atom =>
    intro other twin bound counterpart
    rw [twinning.atom twin]
    refine ⟨fun high otherHigh => ?_, fun _ _ => .none⟩
    obtain ⟨bound, rfl⟩ := Nat.exists_eq_succ_of_ne_zero (Nat.ne_zero_of_lt high)
    obtain ⟨counterpart, rfl⟩ := Nat.exists_eq_succ_of_ne_zero (Nat.ne_zero_of_lt otherHigh)
    exact .none
  | list items inductionHypothesis =>
    intro other twin bound counterpart
    obtain ⟨change, rfl, each⟩ := twinning.list twin
    rw [Source.standing, Source.height, Source.standing, Source.height]
    have high (item : Value) (among : item ∈ items) :
        (Source.standing origin item).height ≤
            Source.itemsHeight (Source.standingItems origin items) ∧
          (Source.standing origin (change item)).height ≤
            Source.itemsHeight (Source.standingItems origin (items.map change)) :=
      ⟨Source.height_item origin among,
        Source.height_item origin (List.mem_map_of_mem among)⟩
    constructor
    · intro under otherUnder
      obtain ⟨bound, rfl⟩ := Nat.exists_eq_succ_of_ne_zero (Nat.ne_zero_of_lt under)
      obtain ⟨counterpart, rfl⟩ := Nat.exists_eq_succ_of_ne_zero (Nat.ne_zero_of_lt otherUnder)
      have pairs := fields_alike twinning entered bound counterpart
        (fun value other => value ∈ items ∧ other = change value)
        (by rintro item _ ⟨among, rfl⟩; exact each item among) (by
          rintro item _ ⟨among, rfl⟩
          exact (inductionHypothesis item among _ (each item among) bound counterpart).2
            (by have := high item among; omega) (by have := high item among; omega))
      have read := Record.decode_lists_alike entered entered "Effect" start items id change
        (pairs.imp fun _ _ pair => ⟨pair.1, fun item among => pair.2 item _ ⟨among, rfl⟩⟩)
      rwa [List.map_id] at read
    · intro under otherUnder
      have read : Option.Rel (List.Forall₂ Like)
          ((Decoder.list (decodeBelow bound)).reading origin (.list (items.map id)))
          ((Decoder.list (decodeBelow counterpart)).reading origin (.list (items.map change))) :=
        Decoder.list_alike entered entered fun item among =>
          (inductionHypothesis item among _ (each item among) bound counterpart).1
            (by have := high item among; omega) (by have := high item among; omega)
      rwa [List.map_id] at read
  | object members inductionHypothesis =>
    intro other twin bound counterpart
    obtain ⟨keep, change, rfl, each⟩ := twinning.object twin
    refine ⟨fun under otherUnder => ?_, fun _ _ => .none⟩
    obtain ⟨bound, rfl⟩ := Nat.exists_eq_succ_of_ne_zero (Nat.ne_zero_of_lt under)
    obtain ⟨counterpart, rfl⟩ := Nat.exists_eq_succ_of_ne_zero (Nat.ne_zero_of_lt otherUnder)
    rw [Source.standing, Source.height] at otherUnder under
    have high (member : String × Value) (among : member ∈ members)
        (kept : keep member = true) :
        (Source.standing origin member.2).height ≤ bound ∧
          (Source.standing origin (change member)).height ≤ counterpart := by
      have first := Source.height_member origin among
      have left : (member.1, change member) ∈
          (members.filter keep).map fun member => (member.1, change member) :=
        List.mem_map.mpr ⟨member, List.mem_filter.mpr ⟨among, kept⟩, rfl⟩
      have second := Source.height_member origin left
      exact ⟨by omega, Nat.le_of_lt_succ (lt_of_le_of_lt second (by omega))⟩
    have pairs := fields_alike twinning entered bound counterpart
      (fun value other => ∃ member ∈ members, member.1 ∈ fieldNames ∧ value = member.2 ∧
        other = change member)
      (by rintro _ _ ⟨member, among, isNamed, rfl, rfl⟩; exact (each member among isNamed).2) (by
        rintro _ _ ⟨member, among, isNamed, rfl, rfl⟩
        obtain ⟨kept, twin⟩ := each member among isNamed
        exact (inductionHypothesis member among _ twin bound counterpart).2
          (high member among kept).1 (high member among kept).2)
    have read := Record.decode_objects_alike entered entered "Effect" start members keep
      (by
        intro member among dropped
        refine List.any_eq_false.mpr fun field isField goes => ?_
        have kept := (each member among (fields_named _ field isField _ goes)).1
        simp [dropped] at kept)
      Prod.snd change
      (((List.forall₂_and_left _ _).mpr ⟨fields_named _, pairs⟩).imp
        fun _ _ ⟨named, namesakes, reads⟩ => ⟨namesakes, fun member among goes =>
          reads member.2 _ ⟨member, among, named _ goes, rfl, rfl⟩⟩)
    rw [below, below]
    simpa using read

/-- Effects are read alike from twins. -/
theorem read_alike {value other : Value} (twin : twins value other) :
    Option.Rel Like (Scene.read? decode value) (Scene.read? decode other) := by
  rw [read_standing, read_standing]
  exact (below_alike twinning rfl value other twin _ _).1 (Nat.lt_succ_self _) (Nat.lt_succ_self _)

/-- Those that can be read among some values are alike. -/
theorem all_read_alike {values others : List Value} (pairs : List.Forall₂ twins values others) :
    List.Forall₂ Like (values.filterMap (Scene.read? decode))
      (others.filterMap (Scene.read? decode)) :=
  List.rel_filterMap (fun _ _ twin => read_alike twinning twin) pairs

end

/-- Effects are read alike with expressions and without. -/
theorem bared_twinning : Twinning Bared where
  normal := by
    rintro value _ ⟨normal, rfl⟩
    exact ⟨normal, stripped_normal normal⟩
  atom := by
    rintro atom _ ⟨-, rfl⟩
    rfl
  list := by
    rintro items _ ⟨normal, rfl⟩
    refine ⟨stripped, by rw [stripped, stripped_items], fun item among => ?_⟩
    exact ⟨(Value.normal_list_iff items).mp normal item among, rfl⟩
  object := by
    rintro members _ ⟨normal, rfl⟩
    have parts := ((Value.normal_object_iff members).mp normal).2
    refine ⟨fun member => !isReference member, fun member => stripped member.2,
      by rw [stripped, stripped_members], fun member among isNamed => ⟨?_, parts member among, rfl⟩⟩
    by_contra lost
    obtain ⟨text, rfl⟩ := reference_text (by simpa using lost)
    simp [fieldNames] at isNamed

end Document.Effect

namespace Scene.Build

variable {S P : Type}

/-- What has been authored for the sliders at a node and below it is in normal form. -/
def WholeControls (node : Node S P) : Prop :=
  ∀ listed ∈ node.listing, ∀ authored,
    listed.kind.authored? = some authored → authored.normal = authored

/-- A node has whole controls if it has them itself and all its parts do. -/
theorem whole_controls_mk {head : Head} {kind : Kind S P} {effects children : List (Node S P)}
    (own : ∀ authored, kind.authored? = some authored → authored.normal = authored)
    (within : ∀ effect ∈ effects, WholeControls effect)
    (below : ∀ child ∈ children, WholeControls child) :
    WholeControls (.mk head kind effects children) :=
  Node.forall_listing.mpr ⟨own, within, below⟩

variable [Scalar S]

/-- An effect has the nodes of its parts below it just in case it is a group. -/
theorem effect_made (authored : Document.Effect) (next : Nat) :
    (effect authored next : Option (Node S P × Nat)) =
      (effectKind authored).map fun kind =>
        if kind.isEffectGroup then
          let (children, after) := effects authored.parts (next + 1)
          (.mk (effectHead authored next) kind [] children, after)
        else (.mk (effectHead authored next) kind [] [], next + 1) := by
  obtain ⟨code, name, matchName, parts, value⟩ := authored
  rw [effect]
  cases (effectKind (.mk code name matchName parts value) : Option (Kind S P)) with
  | none => rfl
  | some kind => cases kind <;> rfl

/-- Effects that are alike are of the same kind. -/
theorem effect_kinds_alike {first second : Document.Effect} (like : first.Like second) :
    Option.Rel (fun kind other : Kind S P => Report.kindWord kind = Report.kindWord other ∧
        ∀ authored, kind.authored? = some authored → authored.normal = authored)
      (effectKind first) (effectKind second) := by
  cases like with
  | @mk code name matchName parts others value other alike whole =>
    unfold effectKind
    simp only [Document.Effect.kind]
    split
    · refine .some ⟨rfl, fun authored isAuthored => ?_⟩
      obtain rfl := Option.some.inj isAuthored
      cases value with
      | none => rfl
      | some value => exact whole value rfl
    · exact .some ⟨rfl, nofun⟩
    · exact .some ⟨rfl, nofun⟩
    · exact .none

mutual
/-- Effects that are alike give nodes that are alike. -/
theorem effect_alike (first second : Document.Effect) (like : first.Like second) (next : Nat) :
    Option.Rel (fun made other : Node S P × Nat => MadeAlike made other ∧ WholeControls made.1)
      (effect first next) (effect second next) := by
  match first, second, like with
  | _, _, @Document.Effect.Like.mk code name matchName parts others _ other alike whole =>
    have inside := effects_alike parts others alike (next + 1)
    have kinds := effect_kinds_alike (S := S) (P := P) (.mk code name matchName other alike whole)
    rw [effect_made, effect_made]
    refine rel_map kinds ?_
    rintro kind counterpart ⟨word, own⟩
    simp only [(Kind.same_word word).2.2]
    split
    · exact ⟨⟨.mk _ word .nil inside.1.1, inside.1.2⟩, whole_controls_mk own (by simp) inside.2⟩
    · exact ⟨⟨.mk _ word .nil .nil, rfl⟩, whole_controls_mk own (by simp) (by simp)⟩

/-- So do lists of them. -/
theorem effects_alike (first second : List Document.Effect)
    (alike : List.Forall₂ Document.Effect.Like first second) (next : Nat) :
    AllAlike (S := S) (P := P) (effects first next) (effects second next) ∧
      ∀ node ∈ (effects first next : List (Node S P) × Nat).1, WholeControls node := by
  match first, second, alike with
  | [], [], _ => exact ⟨⟨.nil, rfl⟩, by simp [effects]⟩
  | first :: rest, second :: others, .cons like behind =>
    rw [effects, effects]
    rcases rel_cases (effect_alike first second like next) with
      ⟨none, noOther⟩ | ⟨⟨node, after⟩, ⟨other, _⟩, made, otherMade, ⟨likeNode, same⟩, whole⟩
    · simp only [none, noOther]
      exact effects_alike rest others behind next
    · obtain rfl : after = _ := same
      obtain ⟨⟨nodes, last⟩, each⟩ := effects_alike rest others behind after
      simp only [made, otherMade]
      exact ⟨⟨.cons likeNode nodes, last⟩, List.forall_mem_cons.mpr ⟨whole, each⟩⟩
end

end Scene.Build

end VectorMotion
