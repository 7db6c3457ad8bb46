import VectorMotion.Proofs.Scene.Controls
import VectorMotion.Proofs.Scene.Degradation

/-!
# Controls within groups

A control that is of no kind that is known gives no node. Within a group, at any depth, it leaves no
trace: the tree is the same with it and without it.

This is not so for a control that cannot be read. The effects of a layer are read one at a time, but
what is nested in one of them is read together with it. So one control that cannot be read costs the
whole effect of the layer, with all other controls and groups in it, and it costs nothing else.
-/

namespace VectorMotion

namespace Json

/-- What stands within a value is not as high. -/
theorem Source.height_part (origin : Origin) {value part : Value} (among : part ∈ value.parts) :
    (standing origin part).height < (standing origin value).height := by
  cases value with
  | atom atom => cases among
  | list items => exact Nat.lt_succ_of_le (height_item origin among)
  | object members =>
    obtain ⟨member, isMember, rfl⟩ := List.mem_map.mp among
    exact Nat.lt_succ_of_le (height_member origin isMember)

section

variable {α β : Type}

/-- Two ways to read that agree on every item read the same list. -/
theorem mapM_congr {read other : α → Option β} {items : List α}
    (same : ∀ item ∈ items, read item = other item) : items.mapM read = items.mapM other := by
  induction items with
  | nil => rfl
  | cons item rest inductionHypothesis =>
    obtain ⟨first, behind⟩ := List.forall_mem_cons.mp same
    rw [List.mapM_cons, List.mapM_cons, first, inductionHypothesis behind]

variable (read : α → Option β) (before behind : List α)

/-- One item among others is read between those before it and those behind it. -/
theorem mapM_around (item : α) :
    (before ++ item :: behind).mapM read =
      (before.mapM read).bind fun front => (read item).bind fun made =>
        (behind.mapM read).map fun back => front ++ made :: back := by
  rw [List.mapM_append, List.mapM_cons]
  refine Option.bind_congr fun front _ => ?_
  cases read item with
  | none => rfl
  | some made => cases behind.mapM read <;> rfl

/-- A list in two parts is read part by part, and fails if either part does. -/
theorem mapM_together :
    (before ++ behind).mapM read =
      (before.mapM read).bind fun front => (behind.mapM read).map fun back => front ++ back := by
  rw [List.mapM_append]
  refine Option.bind_congr fun front _ => ?_
  cases behind.mapM read <;> rfl

end

end Json

open Json Scene

namespace Document.Effect

/-- An effect with other parts. -/
def withParts (effect : Effect) (parts : List Effect) : Effect :=
  mk effect.kind effect.name effect.matchName parts effect.value

/-! ## Effects as records -/

section

variable {origin : Origin} (entered : origin.enter = .ok ())
include entered

/-- The fields of an effect look into a value for the effects within it, which are not as high. -/
theorem fields_congr {first second : Decoder Effect} (value : Value)
    (same : ∀ part, (Source.standing origin part).height < (Source.standing origin value).height →
      first.reading origin part = second.reading origin part) :
    (Record.decode "Effect" blank (fields first)).reading origin value =
      (Record.decode "Effect" blank (fields second)).reading origin value := by
  refine Record.decode_congr entered "Effect" blank value <|
    .cons ⟨⟨rfl, rfl, rfl⟩, fun _ _ => rfl⟩ <| .cons ⟨⟨rfl, rfl, rfl⟩, fun _ _ => rfl⟩ <|
    .cons ⟨⟨rfl, rfl, rfl⟩, fun _ _ => rfl⟩ <|
    .cons ⟨⟨rfl, rfl, rfl⟩, fun part among => ?_⟩ <|
    .cons ⟨⟨rfl, rfl, rfl⟩, fun _ _ => rfl⟩ .nil
  rw [Record.Field.of_reading, Record.Field.of_reading]
  congr 1
  cases part with
  | list items =>
    rw [Decoder.list_reading entered, Decoder.list_reading entered]
    refine mapM_congr fun item isItem => same item ?_
    exact (Source.height_part origin isItem).trans (Source.height_part origin among)
  | _ => rfl

/-- The bound with which an effect is read makes no difference if it is high enough. -/
theorem below_bound (bound counterpart : Nat) (value : Value)
    (high : (Source.standing origin value).height < bound)
    (alsoHigh : (Source.standing origin value).height < counterpart) :
    (decodeBelow bound).reading origin value = (decodeBelow counterpart).reading origin value := by
  induction bound generalizing counterpart value with
  | zero => exact absurd high (Nat.not_lt_zero _)
  | succ bound inductionHypothesis =>
    obtain ⟨counterpart, rfl⟩ := Nat.exists_eq_succ_of_ne_zero (Nat.ne_zero_of_lt alsoHigh)
    exact fields_congr entered value fun part lower =>
      inductionHypothesis counterpart part (by omega) (by omega)

/-- An effect is a record whose parts are effects. -/
theorem decode_reading (value : Value) :
    decode.reading origin value =
      (Record.decode "Effect" blank (fields decode)).reading origin value :=
  fields_congr entered value fun part lower =>
    below_bound entered _ _ part lower (Nat.lt_succ_self _)

end

/-! ## What stands around the parts of an effect -/

/-- A field of an effect other than its parts leaves them alone. -/
theorem spares_parts {field : Record.Field Effect} (isField : field ∈ fields decode)
    (other : field.name ≠ "ef") :
    field.Spares fun (parts : List Effect) record => record.withParts parts := by
  revert field
  simp only [fields, List.forall_mem_cons, List.not_mem_nil, IsEmpty.forall_iff, implies_true,
    and_true]
  refine ⟨fun _ => ?_, fun _ => ?_, fun _ => ?_, fun other => absurd rfl other, fun _ => ?_⟩
  all_goals exact Record.Field.of_spares _ _ fun _ _ _ => rfl

/-- An effect can do without any of its fields. -/
theorem fields_optional : ∀ field ∈ fields decode, field.required = false := by
  simp [fields]

/-- An effect without its parts: the members around them if it is an object, the fields around them
if it is a list. -/
inductive Shell where
  | object (front back : List (String × Value))
  | list (kind name matchName : Value) (behind : List Value)

namespace Shell

/-- The effect with these parts. -/
def holding : Shell → List Value → Value
  | object front back, parts => .object (front ++ ("ef", .list parts) :: back)
  | list kind name matchName behind, parts =>
    .list (kind :: name :: matchName :: .list parts :: behind)

/-- With any parts, an effect can be read if what stands around them can be read, and every part
can. -/
def Reads (shell : Shell) (host : Option Effect) : Prop :=
  ∀ parts, read? decode (shell.holding parts) =
    host.bind fun host => (parts.mapM (read? decode)).map host.withParts

/-- In an object, what stands around the parts of an effect is read for itself. -/
theorem object_reads (front back : List (String × Value)) :
    ∃ host, (object front back).Reads host := by
  have entered : Origin.value.enter = .ok () := rfl
  obtain ⟨host, around⟩ := Record.object_around entered "Effect" blank
    (rfl : (fields decode).find? (·.goesBy "ef") = _) (fun _ => spares_parts) front back
  refine ⟨host, fun parts => ?_⟩
  rw [funext (Expression.read_standing decode), decode_reading entered, holding, around,
    Decoder.list_reading entered]
  rfl

/-- In a list, at most the value stands behind the parts. -/
theorem list_reads (kind name matchName : Value) (behind : List Value) :
    ∃ host, (list kind name matchName behind).Reads host := by
  have entered : Origin.value.enter = .ok () := rfl
  have fits (parts : Value) :
      (kind :: name :: matchName :: parts :: behind).length ≤ (fields decode).length ↔
        behind.length ≤ 1 := by
    have five : (fields decode).length = 5 := rfl
    simp only [List.length_cons, five]
    omega
  let front := Record.inOrder ((fields decode).take 3) [kind, name, matchName]
  let back := Record.inOrder ((fields decode).drop 4) behind
  have spares : ∀ entry ∈ back, entry.1.Spares fun (parts : List Effect) record =>
      record.withParts parts := by
    intro entry among
    obtain ⟨⟨field, value⟩, isMet, rfl⟩ := List.mem_map.mp among
    have last := (List.of_mem_zip isMet).1
    refine spares_parts (List.mem_of_mem_drop last) ?_
    rw [List.mem_singleton.mp last]
    exact (by decide : "v" ≠ "ef")
  by_cases short : behind.length ≤ 1
  · refine ⟨Record.run .value (front ++ back) blank, fun parts => ?_⟩
    rw [funext (Expression.read_standing decode), decode_reading entered, holding,
      Record.decode_list entered, if_pos ?_, ← Decoder.list_reading entered]
    · exact Record.run_around front back spares "ef" "ef" (.list parts) blank
    · refine ⟨(fits _).mpr short, fun field among => ?_⟩
      exact fields_optional field (List.mem_of_mem_drop among)
  · refine ⟨none, fun parts => ?_⟩
    rw [funext (Expression.read_standing decode), decode_reading entered, holding,
      Record.decode_list entered, if_neg fun both => short ((fits _).mp both.1)]
    rfl

/-- What stands around the parts of an effect is read for itself, in either form of an effect. -/
theorem reads : ∀ shell : Shell, ∃ host, shell.Reads host
  | object front back => object_reads front back
  | list kind name matchName behind => list_reads kind name matchName behind

/-- An effect is in normal form if what stands around its parts is and every part is. -/
theorem normal_iff (shell : Shell) (parts : List Value) :
    (shell.holding parts).normal = shell.holding parts ↔
      (shell.holding []).normal = shell.holding [] ∧ ∀ part ∈ parts, part.normal = part := by
  cases shell with
  | object front back =>
    have ascending : Value.Ascending (front ++ ("ef", .list parts) :: back) ↔
        Value.Ascending (front ++ ("ef", .list []) :: back) :=
      ⟨Value.ascending_of_names (by simp), Value.ascending_of_names (by simp)⟩
    simp only [holding, Value.normal_object_iff, Value.normal_list_iff, List.forall_mem_append,
      List.forall_mem_cons, List.not_mem_nil, IsEmpty.forall_iff, implies_true, ascending]
    tauto
  | list kind name matchName behind =>
    simp only [holding, Value.normal_list_iff, List.forall_mem_cons, List.not_mem_nil,
      IsEmpty.forall_iff, implies_true]
    tauto

end Shell

/-- An effect, and the same effect with one more control among the parts of a group: of the effect
itself, or of an effect within it at any depth. -/
inductive Nested (control : Value) : Value → Value → Prop where
  | here (shell : Shell) (before behind : List Value)
      (group : ∀ read, read? decode (shell.holding (before ++ behind)) = some read →
        read.kind = 5) :
      Nested control (shell.holding (before ++ behind)) (shell.holding (before ++ control :: behind))
  | deeper (shell : Shell) (before behind : List Value) {effect more : Value}
      (inside : Nested control effect more) :
      Nested control (shell.holding (before ++ effect :: behind))
        (shell.holding (before ++ more :: behind))

/-- Without the control, an effect in normal form stays so. -/
theorem Nested.normal {control effect more : Value} (nested : Nested control effect more)
    (normal : more.normal = more) : effect.normal = effect := by
  induction nested with
  | here shell before behind group =>
    rw [Shell.normal_iff, List.forall_mem_append] at normal ⊢
    rw [List.forall_mem_cons] at normal
    exact ⟨normal.1, normal.2.1, normal.2.2.2⟩
  | deeper shell before behind _ inductionHypothesis =>
    rw [Shell.normal_iff, List.forall_mem_append, List.forall_mem_cons] at normal ⊢
    exact ⟨normal.1, normal.2.1, inductionHypothesis normal.2.2.1, normal.2.2.2⟩

/-- A control that cannot be read costs the whole effect in which it is nested. -/
theorem Nested.unreadable {control effect more : Value} (nested : Nested control effect more)
    (unread : read? decode control = none) : read? decode more = none := by
  induction nested with
  | here shell before behind group =>
    obtain ⟨host, around⟩ := shell.reads
    rw [around, mapM_around, unread]
    simp
  | deeper shell before behind _ inductionHypothesis =>
    obtain ⟨host, around⟩ := shell.reads
    rw [around, mapM_around, inductionHypothesis]
    simp

end Document.Effect

/-- Effects are not looked into for expressions, and do not matter for whether the object that has
them is replaced. -/
theorem Scene.Expression.resolve_beside_effects {S P : Type} (root : Node S P)
    (front back : List (String × Value)) :
    (∃ value, ∀ effects, resolve root (.object (front ++ ("ef", effects) :: back)) = value) ∨
      ∃ before behind, ∀ effects, resolve root (.object (front ++ ("ef", effects) :: back)) =
        .object (before ++ ("ef", effects) :: behind) := by
  have reference (effects : Value) : replacement? root (front ++ ("ef", effects) :: back) =
      replacement? root (front ++ back) := by
    have looked : (front ++ ("ef", effects) :: back).lookup "x" = (front ++ back).lookup "x" := by
      simp [List.lookup_append, List.lookup_cons]
    rw [replacement?, replacement?, looked]
  cases replaced : replacement? root (front ++ back) with
  | some value => exact .inl ⟨value, fun effects => by rw [resolve, reference, replaced]⟩
  | none =>
    refine .inr ⟨resolveMembers root front, resolveMembers root back, fun effects => ?_⟩
    rw [resolve, reference, replaced]
    simp only [resolve_members, List.map_append, List.map_cons]
    rfl

namespace Scene.Build

open Document (Effect)

variable {S P : Type} [Scalar S]

/-- Two effects that hold the same value and give the same nodes. -/
structure SameEffects (first second : Effect) : Prop where
  value : first.value = second.value
  nodes : ∀ next, (effect first next : Option (Node S P × Nat)) = effect second next

/-- An effect is the same as itself. -/
theorem SameEffects.refl (authored : Effect) : SameEffects (S := S) (P := P) authored authored :=
  ⟨rfl, fun _ => rfl⟩

/-- Effects one by one the same give the same nodes together. -/
theorem effects_same {first second : List Effect}
    (same : List.Forall₂ (SameEffects (S := S) (P := P)) first second) (next : Nat) :
    (effects first next : List (Node S P) × Nat) = effects second next := by
  induction same generalizing next with
  | nil => rfl
  | cons each _ inductionHypothesis =>
    rw [effects, effects, each.nodes next]
    split
    · rw [inductionHypothesis]
    · exact inductionHypothesis next

/-- An effect of a kind that is not known leaves no trace among others. -/
theorem effects_unknown {made : Effect}
    (unknown : (effectKind made : Option (Kind S P)) = none) (before behind : List Effect)
    (next : Nat) :
    (effects (before ++ made :: behind) next : List (Node S P) × Nat) =
      effects (before ++ behind) next := by
  induction before generalizing next with
  | nil =>
    rw [List.nil_append, effects, effect_made, unknown]
    rfl
  | cons first rest inductionHypothesis => simp only [List.cons_append, effects, inductionHypothesis]

/-- The property of a control depends on nothing but its value. -/
theorem control_property {V : Type} (decode : Decoder V) {first second : Option Effect}
    (same : first.bind (·.value) = second.bind (·.value)) :
    (controlProperty decode first : Document.Property S V) = controlProperty decode second := by
  rw [controlProperty, controlProperty, same]

/-- The kind of an effect depends on its parts by their values only, which a flood takes from their
places. -/
theorem effect_kind_with_parts (host : Effect) {first second : List Effect}
    (values : first.map (·.value) = second.map (·.value)) :
    (effectKind (host.withParts first) : Option (Kind S P)) =
      effectKind (host.withParts second) := by
  have slot (index : Nat) : first[index]?.bind (·.value) = second[index]?.bind (·.value) := by
    have each := congrArg (·[index]?.bind id) values
    simpa only [List.getElem?_map, Option.bind_map, Function.id_comp] using each
  have flood : (Flood.ofDocument (host.withParts first) : Flood S) =
      Flood.ofDocument (host.withParts second) := by
    rw [Flood.ofDocument, Flood.ofDocument]
    exact congrArg₂ Flood.mk
      (congrArg Scene.color (control_property Document.decodeColor (slot Flood.colorSlot)))
      (congrArg (amount 1) (control_property Decoder.scalar (slot Flood.opacitySlot)))
  obtain ⟨code, name, matchName, parts, value⟩ := host
  simp only [effectKind, Effect.withParts, Effect.kind] at flood ⊢
  split
  · rfl
  · rfl
  · exact congrArg (some ∘ Kind.flood) flood
  · rfl

/-- An effect whose parts are the same is the same. -/
theorem with_parts_same (host : Effect) {first second : List Effect}
    (same : List.Forall₂ (SameEffects (S := S) (P := P)) first second) :
    SameEffects (S := S) (P := P) (host.withParts first) (host.withParts second) := by
  refine ⟨rfl, fun next => ?_⟩
  have values : first.map (·.value) = second.map (·.value) := by
    rw [← List.forall₂_eq_eq_eq, List.forall₂_map_left_iff, List.forall₂_map_right_iff]
    exact same.imp fun _ _ each => each.value
  rw [effect_made, effect_made, effect_kind_with_parts host values]
  simp only [Effect.withParts, Effect.parts, effects_same same]
  rfl

/-- In a group, a control of a kind that is not known leaves no trace. -/
theorem group_unknown {host made : Effect} (group : host.kind = 5)
    (unknown : (effectKind made : Option (Kind S P)) = none) (before behind : List Effect) :
    SameEffects (S := S) (P := P) (host.withParts (before ++ behind))
      (host.withParts (before ++ made :: behind)) := by
  refine ⟨rfl, fun next => ?_⟩
  have isGroup (parts : List Effect) :
      (effectKind (host.withParts parts) : Option (Kind S P)) = some .effectGroup := by
    have kind : (host.withParts parts).kind = 5 := group
    simp only [effectKind, kind]
  rw [effect_made, effect_made, isGroup, isGroup]
  simp only [Effect.withParts, Effect.parts, effects_unknown unknown]
  rfl

/-- So an effect with such a control nested in it can be read if the effect without it can, and is
the same. -/
theorem nested_same {control effect more : Value} (nested : Effect.Nested control effect more)
    {made : Effect} (reads : read? Effect.decode control = some made)
    (unknown : (effectKind made : Option (Kind S P)) = none) :
    Option.Rel (SameEffects (S := S) (P := P)) (read? Effect.decode effect)
      (read? Effect.decode more) := by
  induction nested with
  | here shell before behind group =>
    obtain ⟨host, around⟩ := shell.reads
    rw [around, mapM_together] at group ⊢
    rw [around, mapM_around, reads]
    revert group
    cases host with
    | none => exact fun _ => .none
    | some host =>
      cases before.mapM (read? Effect.decode) with
      | none => exact fun _ => .none
      | some front =>
        cases behind.mapM (read? Effect.decode) with
        | none => exact fun _ => .none
        | some back => exact fun group => .some (group_unknown (group _ rfl) unknown front back)
  | deeper shell before behind _ inductionHypothesis =>
    obtain ⟨host, around⟩ := shell.reads
    rw [around, around, mapM_around, mapM_around]
    refine rel_bind (rel_of_eq rfl) ?_
    rintro host _ rfl
    refine rel_map ?_ fun _ _ same => with_parts_same host same
    refine rel_bind (rel_of_eq rfl) ?_
    rintro front _ rfl
    refine rel_bind inductionHypothesis fun _ _ same => ?_
    refine rel_map (rel_of_eq rfl) ?_
    rintro back _ rfl
    exact List.rel_append (List.forall₂_same.mpr fun each _ => .refl each)
      (.cons same (List.forall₂_same.mpr fun each _ => .refl each))

/-! ## Layers -/

/-- A layer can be read if what stands around its effects can be read. -/
theorem layer_around (front back : List (String × Value)) :
    ∃ host : Option (Document.Layer S), ∀ items,
      read? Document.Layer.decode (.object (front ++ ("ef", .list items) :: back)) =
        host.map fun layer => { layer with effects := items.map Value.normal } := by
  have spares : ∀ field ∈ Document.Layer.fields (S := S), field.name ≠ "ef" →
      field.Spares fun (effects : List Value) record => { record with effects } := by
    simp only [Document.Layer.fields, List.forall_mem_cons, List.not_mem_nil, IsEmpty.forall_iff,
      implies_true, and_true]
    refine ⟨?_, ?_, ?_, ?_, ?_, ?_, ?_, ?_, ?_, ?_, ?_, ?_, ?_, fun other => absurd rfl other, ?_⟩
    all_goals exact fun _ => Record.Field.of_spares _ _ fun _ _ _ => rfl
  have entered : Origin.value.enter = .ok () := rfl
  obtain ⟨host, around⟩ := Record.object_around entered "Layer" Document.Layer.blank
    (rfl : (Document.Layer.fields (S := S)).find? (·.goesBy "ef") = _) spares front back
  refine ⟨host, fun items => ?_⟩
  rw [Expression.read_standing, Document.Layer.decode, around, Option.map_eq_bind]
  refine Option.bind_congr fun layer _ => ?_
  rw [Decoder.reading, Source.standing_value, Source.whole_list]
  rfl

/-- One effect among others on a layer can be replaced by one that is read the same. -/
theorem replaced_effect {effect more : Value}
    (same : Option.Rel (SameEffects (S := S) (P := P)) (read? Effect.decode effect)
      (read? Effect.decode more)) (first last : List Value) (next : Nat) :
    (effects ((first ++ effect :: last).filterMap (read? Effect.decode)) next :
      List (Node S P) × Nat) =
      effects ((first ++ more :: last).filterMap (read? Effect.decode)) next := by
  have itself (value : Value) : Option.Rel (SameEffects (S := S) (P := P))
      (read? Effect.decode value) (read? Effect.decode value) := by
    cases read? Effect.decode value with
    | none => exact .none
    | some authored => exact .some (.refl authored)
  refine effects_same (List.rel_filterMap (fun _ _ reads => reads) ?_) next
  exact List.rel_append (List.forall₂_same.mpr fun value _ => itself value)
    (.cons same (List.forall₂_same.mpr fun value _ => itself value))

variable [Scalar P] [Widen S P]

/-- A layer is the same with other effects that give the same nodes. -/
theorem effects_swapped (workshop : Workshop S) {items more : List Value}
    (same : ∀ next,
      (effects ((items.map Value.normal).filterMap (read? Effect.decode)) next :
        List (Node S P) × Nat) =
      effects ((more.map Value.normal).filterMap (read? Effect.decode)) next)
    (front back : List (String × Value)) :
    SameFragments (P := P) workshop (.object (front ++ ("ef", .list items) :: back))
      (.object (front ++ ("ef", .list more) :: back)) := by
  have apart : Apart "ef" (fun _ _ => True) (front ++ ("ef", .list items) :: back)
      (front ++ ("ef", .list more) :: back) := .at_member trivial front back
  constructor
  · intro next
    obtain ⟨host, around⟩ := layer_around (S := S) front back
    rw [layerHead, layerHead, Document.Label.decode, read_apart _ "ef" _ _ (by decide) apart]
    refine Option.bind_congr fun label _ => ?_
    rw [around, around]
    cases host with
    | none => rfl
    | some layer =>
      simp only [Option.map_some, Option.bind_eq_bind, Option.bind_some, same]
      rfl
  · intro root layer next
    rcases Expression.resolve_beside_effects root front back with
      ⟨value, replaced⟩ | ⟨before, behind, kept⟩
    · rw [replaced, replaced]
    · obtain ⟨host, around⟩ := layer_around (S := S) before behind
      rw [kept, kept, fillLayer, fillLayer, around, around]
      cases host <;> rfl

end Scene.Build

namespace Scene

variable {S P : Type} [Scalar S] [Scalar P] [Widen S P]

/-- What one more control costs, nested in an effect of a layer among the controls of a group at any
depth. If it can be read but is of no kind that is known, it costs nothing: the tree is the same
without it, names, numbers and order of the nodes included. If it cannot be read, the effect of the
layer in which it is nested is lost, with everything in it: the tree is the same without that effect.
The other effects of the layer are there either way. The effect is in normal form, as it is once it
has been read. -/
theorem nested_controls (settings : Trim.Settings) (document : Document S)
    (before behind : List Value) (front back : List (String × Value)) (first last : List Value)
    {control effect more : Value} (nested : Document.Effect.Nested control effect more)
    (normal : more.normal = more) :
    let tree (effects : List Value) : Tree S P := Tree.ofDocument settings
      { document with
        layers := before ++ .object (front ++ ("ef", .list effects) :: back) :: behind }
    (∀ made, read? Document.Effect.decode control = some made →
      (Build.effectKind made : Option (Kind S P)) = none →
        tree (first ++ more :: last) = tree (first ++ effect :: last)) ∧
    (read? Document.Effect.decode control = none →
      tree (first ++ more :: last) = tree (first ++ last)) := by
  intro tree
  have same_tree {items others : List Value}
      (same : ∀ next,
        (Build.effects ((items.map Value.normal).filterMap (read? Document.Effect.decode)) next :
          List (Node S P) × Nat) =
        Build.effects ((others.map Value.normal).filterMap (read? Document.Effect.decode)) next) :
      tree items = tree others := by
    have made := Build.document_replaced ⟨settings, document.assets⟩
      (Build.effects_swapped ⟨settings, document.assets⟩ same front back) before behind
    exact congrArg (fun made : Node S P × Nat => ({ root := made.1, next := made.2 } : Tree S P))
      made
  constructor
  · intro made reads unknown
    refine (same_tree fun next => ?_).symm
    rw [List.map_append, List.map_cons, List.map_append, List.map_cons, normal,
      nested.normal normal]
    exact Build.replaced_effect (Build.nested_same nested reads unknown) _ _ next
  · intro unread
    refine same_tree fun next => ?_
    rw [List.map_append, List.map_cons, normal, List.map_append, List.filterMap_append,
      List.filterMap_append, List.filterMap_cons_none (nested.unreadable unread)]

/-- The tree of a document with one layer that has these effects. -/
def controlled (effects : List Value) : Tree Float32 Float :=
  Tree.ofDocument {}
    { inPoint := 0, outPoint := 60, frameRate := 30,
      layers := [.object [("ef", .list effects), ("op", .natural 60), ("ty", .natural 4)]] }

/-- A group within a group, with a slider and more controls. -/
def sizes (more : List Value) : Value :=
  let slider : Value := .object [("nm", .text "Width"), ("ty", .natural 0)]
  let group : Value :=
    .object [("ef", .list (slider :: more)), ("nm", .text "Sizes"), ("ty", .natural 5)]
  .object [("ef", .list [group]), ("nm", .text "Controls"), ("ty", .natural 5)]

/-- A slider that stands alone. -/
def speed : Value := .object [("nm", .text "Speed"), ("ty", .natural 0)]

/-- A check box. -/
def checkBox : Value := .object [("nm", .text "Visible"), ("ty", .natural 7)]

/-- A slider with a number for its name, which cannot be read. -/
def misnamed : Value := .object [("nm", .natural 7), ("ty", .natural 0)]

/-- A check box is of no kind that is known and leaves no trace in a group within a group. With a
slider that cannot be read, the whole outer group is lost. -/
theorem check_box_and_misnamed :
    controlled [sizes [checkBox], speed] = controlled [sizes [], speed] ∧
      controlled [sizes [misnamed], speed] = controlled [speed] := by
  let document : Document Float32 :=
    { inPoint := 0, outPoint := 60, frameRate := 30, layers := [] }
  have nested (control : Value) : Document.Effect.Nested control (sizes []) (sizes [control]) := by
    refine .deeper (.object [] [("nm", .text "Controls"), ("ty", .natural 5)]) [] []
      (.here (.object [] [("nm", .text "Sizes"), ("ty", .natural 5)])
        [.object [("nm", .text "Width"), ("ty", .natural 0)]] [] fun read reads => ?_)
    have kind := congrArg (Option.map (·.kind)) reads
    exact Option.some.inj (kind.symm.trans (by decide +kernel))
  constructor
  · exact (nested_controls (P := Float) {} document [] [] []
      [("op", .natural 60), ("ty", .natural 4)] [] [speed] (nested checkBox) rfl).1 _ rfl rfl
  · exact (nested_controls (P := Float) {} document [] [] []
      [("op", .natural 60), ("ty", .natural 4)] [] [speed] (nested misnamed) rfl).2 rfl

/-- So a slider that cannot be read costs the slider beside it, which is not found any more. -/
theorem width_lost :
    let names (tree : Tree Float32 Float) : List String := tree.root.listing.map (·.head.name)
    read? Document.Effect.decode misnamed = none ∧
      names (controlled [sizes [], speed]) = ["", "", "Controls", "Sizes", "Width", "Speed"] ∧
      names (controlled [sizes [misnamed], speed]) = ["", "", "Speed"] ∧
      ((controlled [sizes [], speed]).find? "Width").isSome = true ∧
      ((controlled [sizes [misnamed], speed]).find? "Width").isSome = false := by
  decide +kernel

end Scene

end VectorMotion
