import VectorMotion.Document.Shape
import VectorMotion.Proofs.Json.Records

/-!
# What can be read as a property

Whether a value can be read as a property does not depend on what the property holds, for its
content never fails. So it can be said of the value alone: which names it may have, and what may
stand under them. With this it can be told of a position whether it can be read as one property or
as two, and of the step of a repeater what its own fields and those of its transform take.
-/

namespace VectorMotion.Document

open Json

variable {S V : Type} [Scalar S] {origin : Origin}

namespace Property

/-- The names of the fields of a property in their order. -/
def fieldNames : List String := ["a", "k", "ix", "x", "fromExpression"]

/-- Whether a value may stand under a name in a property. -/
def Takes (name : String) (value : Value) : Prop :=
  (name = "a" → (Decoder.code.reading .value value).isSome = true) ∧
    (name = "ix" → ((Decoder.optional Decoder.index).reading .value value).isSome = true) ∧
    (name = "x" → ((Decoder.optional Decoder.text).reading .value value).isSome = true) ∧
    (name = "fromExpression" → (Decoder.boolean.reading .value value).isSome = true)

/-- Whether a value can be read as a property. -/
def Readable : Value → Prop
  | .atom _ => False
  | .list items =>
    items.length ≤ fieldNames.length ∧ ∀ entry ∈ fieldNames.zip items, Takes entry.1 entry.2
  | .object members => ∀ member ∈ members, Takes member.1 member.2

/-- Whatever a property holds can be read, and is told apart only behind its normal form. -/
theorem content_reading (entered : origin.enter = .ok ()) (decode : Decoder V) (value : Value) :
    (Content.decode (S := S) decode).reading origin value =
      some (Content.ofValue decode value.normal) := by
  rw [Decoder.reading, Content.decode, Source.whole_standing entered]
  rfl

/-- A field takes what may stand under its name. -/
theorem field_takes (entered : origin.enter = .ok ()) (decode : Decoder V) :
    ∀ field ∈ fields (S := S) decode, ∀ value,
      (Decoder.reading origin field.read value).isSome = true ↔ Takes field.name value := by
  have code := Decoder.Plain.code.anywhere origin .value
  have index := Decoder.Plain.anywhere (.optional .index) origin .value
  have text := Decoder.Plain.anywhere (.optional .text) origin .value
  have boolean := Decoder.Plain.anywhere .boolean origin .value
  simp only [fields, List.forall_mem_cons, Record.Field.of_reading, Option.isSome_map]
  refine ⟨fun value => ?_, fun value => ?_, fun value => ?_, fun value => ?_, fun value => ?_, ?_⟩
  · simp [Takes, Record.Field.of, code]
  · simp [Takes, Record.Field.of, content_reading entered]
  · simp [Takes, Record.Field.of, index]
  · simp [Takes, Record.Field.of, text]
  · simp [Takes, Record.Field.of, boolean]
  · simp

/-- A property can be read from whatever takes the right things, whatever it holds. -/
theorem reading_iff (entered : origin.enter = .ok ()) (decode : Decoder V) {value : Value}
    (normal : value.normal = value) :
    ((Property.decode (S := S) decode).reading origin value).isSome = true ↔ Readable value := by
  have takes := field_takes (S := S) entered decode
  have alone : ∀ field ∈ fields (S := S) decode, field.aliases = [] ∧ field.required = false := by
    simp [fields, Record.Field.of]
  cases value with
  | atom value => exact iff_of_false nofun id
  | list items =>
    have inOrder : (∀ entry ∈ Record.inOrder (fields (S := S) decode) items,
        (Decoder.reading origin entry.1.read entry.2.2).isSome = true) ↔
          ∀ entry ∈ fieldNames.zip items, Takes entry.1 entry.2 := by
      rw [show fieldNames = (fields (S := S) decode).map (·.name) from rfl, List.zip_map_left,
        Record.inOrder, List.forall_mem_map, List.forall_mem_map]
      refine forall₂_congr fun entry among => ?_
      exact takes entry.1 (List.of_mem_zip among).1 entry.2
    have required : ∀ field ∈ (fields (S := S) decode).drop items.length,
        field.required = false :=
      fun field among => (alone field (List.mem_of_mem_drop among)).2
    rw [Property.decode, Record.decode_list entered, Readable, ← inOrder]
    split
    · next fit => rw [Record.run_some]; exact (and_iff_right fit.1).symm
    · next unfit => exact iff_of_false nofun fun readable => unfit ⟨readable.1, required⟩
  | object members =>
    have distinct : ((fields (S := S) decode).map (·.name)).Nodup :=
      (by decide : fieldNames.Nodup)
    rw [Property.decode,
      Record.object_some_iff (fun field among => (alone field among).1) entered _ _ distinct
        (Value.names_once normal), Readable, and_iff_right fun field among required => by
        simp [(alone field among).2] at required]
    refine forall₂_congr fun member _ => ?_
    constructor
    · intro each
      have named (field : Record.Field (Property S V)) (isField : field ∈ fields decode)
          (same : field.name = member.1) : Takes member.1 member.2 :=
        same ▸ (takes field isField member.2).mp (each field isField same)
      by_cases known : member.1 ∈ fieldNames
      · obtain ⟨field, isField, same⟩ := List.mem_map.mp
          (show member.1 ∈ (fields (S := S) decode).map (·.name) from known)
        exact named field isField same
      · simp only [fieldNames, List.mem_cons, not_or] at known
        simp [Takes, known]
    · intro takesIt field isField same
      exact (takes field isField member.2).mpr (same ▸ takesIt)

end Property

namespace Position

/-- Whether the coordinates have properties of their own. -/
def isSplit : Position S → Bool
  | unified _ => false
  | split .. => true

/-- Whether an object with these members can be read as a position that is split. -/
def Splits (members : List (String × Value)) : Prop :=
  (∀ name ∈ ["x", "y"], name ∈ members.map Prod.fst) ∧
    ∀ member ∈ members, member.1 = "x" ∨ member.1 = "y" → Property.Readable member.2

/-- Whether a value can be read as a position: an object with two properties, or one property. -/
def Readable : Value → Prop
  | .object members => Splits members ∨ Property.Readable (.object members)
  | value => Property.Readable value

/-- What can be read as one property can be read as a position. -/
theorem Readable.of_property {value : Value} (readable : Property.Readable value) :
    Readable value := by
  cases value with
  | object members => exact .inr readable
  | _ => exact readable

/-- A split position is read as a record of its halves. -/
theorem split_reading (members : List (String × Value)) :
    Decoder.reading .kept (decodeSplit (S := S)) (.object members) =
      ((Record.decode "Position" {} (halves (S := S))).reading .kept (.object members)).map
        fun read => .split read.x read.y := by
  rw [Decoder.reading, Decoder.reading, Source.standing, decodeSplit, Record.decode]
  simp only [Decoded.to_option_bind, Origin.enter, leave]
  cases Record.readMembers (halves (S := S)) [] (Source.standingMembers .kept members) {} with
  | error misfit => rfl
  | ok read =>
    simp only [Except.toOption, Option.bind_some]
    cases Record.requireAll (halves (S := S)) read.1 <;> rfl

/-- A position is read in its split form exactly if it has both halves and each of them is a
property. -/
theorem split_iff {members : List (String × Value)}
    (normal : (Value.object members).normal = .object members) :
    (Decoder.reading .kept (decodeSplit (S := S)) (.object members)).isSome = true ↔
      Splits members := by
  have alone : ∀ half ∈ halves (S := S), half.aliases = [] := by simp [halves, Record.Field.must]
  have distinct : ((halves (S := S)).map (·.name)).Nodup := (by decide : ["x", "y"].Nodup)
  rw [split_reading, Option.isSome_map,
    Record.object_some_iff alone rfl _ _ distinct (Value.names_once normal), Splits]
  refine and_congr ?_ (forall₂_congr fun member among => ?_)
  · simp [halves, Record.Field.must]
  · have part := ((Value.normal_object_iff members).mp normal).2 member among
    have kept : Origin.kept.enter = .ok () := rfl
    have amount := Property.reading_iff (S := S) kept (Decoder.scalar (S := S)) part
    simp only [halves, List.forall_mem_cons, Record.Field.must_reading, Option.isSome_map,
      Amount.decode, amount]
    simp [Record.Field.must, or_imp, @eq_comm _ _ member.1]

/-- A position is read in its split form, or else as one property. -/
theorem reading_either (entered : origin.enter = .ok ()) (value : Value) :
    (Position.decode (S := S)).reading origin value =
      (Decoder.reading .kept (decodeSplit (S := S)) value).or
        (((Point.decode (S := S)).reading .kept value).map .unified) := by
  rw [Decoder.reading, decode, Source.keep_standing entered, Decoder.reading, Decoder.reading]
  simp only [Bind.bind, Except.bind]
  cases decodeSplit (S := S) (.standing .kept value) with
  | ok position => rfl
  | error misfit => cases Point.decode (S := S) (.standing .kept value) <;> rfl

/-- A position can be read in either form. -/
theorem reading_iff (entered : origin.enter = .ok ()) {value : Value}
    (normal : value.normal = value) :
    ((Position.decode (S := S)).reading origin value).isSome = true ↔ Readable value := by
  have kept : Origin.kept.enter = .ok () := rfl
  have point := Property.reading_iff (S := S) kept (Triple.decodePoint (S := S)) normal
  rw [reading_either entered, Option.isSome_or, Bool.or_eq_true, Option.isSome_map, Point.decode,
    point]
  cases value with
  | atom value => exact or_iff_right Bool.false_ne_true
  | list items => exact or_iff_right Bool.false_ne_true
  | object members => exact or_congr_left (split_iff normal)

end Position

namespace Step

/-- Whether a member belongs to the transform of a step. -/
def isLeft (member : String × Value) : Bool := !(["so", "eo"].contains member.1)

/-- The members of a step are read as those of any record, and what is not its own is set aside. -/
theorem read_members_left (entered : origin.enter = .ok ()) (members : List (String × Value))
    (seen : List String) (step : Step S) :
    (readMembers seen (Source.standingMembers origin members) step).toOption =
      (Record.readMembers fields seen (Source.standingMembers origin members) step).toOption.map
        fun read => (Source.standingMembers .kept (members.filter isLeft), read.2) := by
  induction members generalizing seen step with
  | nil => rfl
  | cons member rest inductionHypothesis =>
    obtain ⟨name, value⟩ := member
    have left : isLeft (name, value) = !(fields (S := S)).any (·.goesBy name) := by
      simp [isLeft, fields, Record.Field.of, Record.Field.goesBy, @eq_comm _ name,
        Bool.beq_eq_decide_eq]
    rw [Source.standingMembers, readMembers, Record.readMembers, nameOf]
    simp only [Bind.bind, Except.bind]
    cases found : (fields (S := S)).find? (·.goesBy name) with
    | none =>
      have none : isLeft (name, value) = true := by
        rw [left, Bool.not_eq_true', ← Bool.not_eq_true, List.any_eq_true]
        rintro ⟨field, isField, goes⟩
        exact List.find?_eq_none.mp found field isField goes
      have behind := inductionHypothesis seen step
      simp only [Source.keep_standing entered, Source.skip_standing, List.filter_cons, none,
        ↓reduceIte, Source.standingMembers]
      revert behind
      generalize readMembers seen (Source.standingMembers origin rest) step = read
      generalize Record.readMembers fields seen (Source.standingMembers origin rest) step = other
      intro behind
      cases read <;> cases other <;> simp_all [Except.toOption, Pure.pure, Except.pure]
    | some field =>
      have own : isLeft (name, value) = false := by
        have goes := List.find?_some found
        rw [left, Bool.not_eq_false', List.any_eq_true]
        exact ⟨field, List.mem_of_find?_eq_some found, goes⟩
      simp only [List.filter_cons, own, Bool.false_eq_true, ↓reduceIte]
      split
      · rfl
      · cases field.read (.standing origin value) with
        | error misfit => rfl
        | ok put => exact inductionHypothesis (field.name :: seen) (put step)

/-- A step is read as a record of its own fields and as a transform of what is left. -/
theorem reading_both (entered : origin.enter = .ok ()) (members : List (String × Value)) :
    (Step.decode (S := S)).reading origin (.object members) =
      ((Record.decode "Step" {} (fields (S := S))).reading origin (.object members)).bind
        fun step => ((Transform.decode (S := S)).reading .kept
          (.object (members.filter isLeft))).map fun transform => { step with transform } := by
  rw [Decoder.reading, Decoder.reading, Source.standing, decode, Record.decode, entered]
  simp only [Decoded.to_option_bind, read_members_left entered]
  cases (Record.readMembers (fields (S := S)) [] (Source.standingMembers origin members)
      {}).toOption with
  | none => rfl
  | some read =>
    have required : Record.requireAll (fields (S := S)) read.1 = .ok () := by
      simp [Record.requireAll, fields, Record.Field.of]
    simp only [Option.map_some, Option.bind_some, leave, required]
    rw [Decoder.reading, Source.standing]
    cases Transform.decode (S := S)
      (.object .kept (Source.standingMembers .kept (members.filter isLeft)) none) <;> rfl

/-- A step can be read if its own opacities can and what is left is a transform. -/
theorem reading_iff (entered : origin.enter = .ok ()) {members : List (String × Value)}
    (normal : (Value.object members).normal = .object members) :
    ((Step.decode (S := S)).reading origin (.object members)).isSome = true ↔
      (∀ member ∈ members, member.1 = "so" ∨ member.1 = "eo" → Property.Readable member.2) ∧
        ((Transform.decode (S := S)).reading .kept
          (.object (members.filter isLeft))).isSome = true := by
  have alone : ∀ field ∈ fields (S := S), field.aliases = [] ∧ field.required = false := by
    simp [fields, Record.Field.of]
  have distinct : ((fields (S := S)).map (·.name)).Nodup := (by decide : ["so", "eo"].Nodup)
  have own : ((Record.decode "Step" {} (fields (S := S))).reading origin
      (.object members)).isSome = true ↔
        ∀ member ∈ members, member.1 = "so" ∨ member.1 = "eo" → Property.Readable member.2 := by
    rw [Record.object_some_iff (fun field isField => (alone field isField).1) entered _ _ distinct
      (Value.names_once normal), and_iff_right fun field isField required => by
        simp [(alone field isField).2] at required]
    refine forall₂_congr fun member among => ?_
    have part := ((Value.normal_object_iff members).mp normal).2 member among
    have amount := Property.reading_iff (S := S) entered (Decoder.scalar (S := S)) part
    simp only [fields, List.forall_mem_cons, Record.Field.of_reading, Option.isSome_map,
      Amount.decode, amount]
    simp [Record.Field.of, or_imp, @eq_comm _ _ member.1]
  rw [reading_both entered, ← own]
  cases (Record.decode "Step" {} (fields (S := S))).reading origin (.object members) <;> simp

end Step

end VectorMotion.Document
