import VectorMotion.Proofs.Document.Readable
import VectorMotion.Proofs.Scene.Stripping

/-!
# Readings that agree

What a decoder reads from a value with its expressions replaced is compared with what it reads from
the value without them. Where expressions are replaced only where a property is due, and only by
properties, decoders read both times or neither time: first properties, then the records that hold
them, one field after the other. What is left out and what is put in need not be read as the same
value.
-/

namespace VectorMotion.Scene.Expression

open Json

variable {S P : Type}

section

variable [Scalar S] {root : Node S P} {slot : Slot}

/-- An object in a slot stays one, with its members in their slots, or it is a property and is
replaced by one. -/
theorem suits_object {members : List (String × Value)}
    (suited : suits root slot (.object members) = true) :
    (resolve root (.object members) = .object (resolveMembers root members) ∧
        ∀ member ∈ members, member.1 ≠ effectsMember →
          suits root (slot.under member.1) member.2 = true) ∨
      slot = .property ∧ isProperty S (resolve root (.object members)) = true ∧
        isProperty S (stripped (.object members)) = true := by
  rw [suits] at suited
  rw [resolve]
  cases replaced : replacement? root members with
  | some other =>
    simp only [replaced, Bool.and_eq_true, beq_iff_eq] at suited
    exact .inr ⟨suited.1.1, suited.1.2, suited.2⟩
  | none =>
    rw [replaced] at suited
    exact .inl ⟨rfl, (suits_within root slot members).mp suited⟩

/-- The items of a list suit a place if the list does. -/
theorem suits_items {items : List Value} (suited : suits root slot (.list items) = true) :
    ∀ item ∈ items, suits root slot.within item = true :=
  (suits_among root slot.within items).mp suited

/-- No property is a value without parts. -/
theorem property_parts {value : Value} (isProperty : isProperty S value = true) (atom : Atom) :
    value ≠ .atom atom := by
  rintro rfl
  cases isProperty

/-- Whether a decoder reads alike what a value in a slot comes to with its expressions replaced and
without them. -/
def Agrees (root : Node S P) (slot : Slot) {α : Type} (alike : α → α → Prop)
    (decode : Decoder α) : Prop :=
  ∀ origin, origin.enter = .ok () → ∀ value, value.normal = value → suits root slot value = true →
    Option.Rel alike (decode.reading origin (resolve root value))
      (decode.reading origin (stripped value))

/-- Two things of which nothing is said but that they are there. -/
def There {α : Type} (_ _ : α) : Prop := True

/-- Readings agree in what is there if both give something or neither does. -/
theorem there_iff {α : Type} (first second : Option α) :
    Option.Rel There first second ↔ (first.isSome = true ↔ second.isSome = true) := by
  constructor
  · rintro (_ | _)
    · exact iff_of_true rfl rfl
    · exact Iff.rfl
  · intro same
    cases first <;> cases second
    · exact .none
    · exact absurd (same.mpr rfl) Bool.false_ne_true
    · exact absurd (same.mp rfl) Bool.false_ne_true
    · exact .some trivial

/-- Readings that are alike in any way agree in what is there. -/
theorem there_of {α : Type} {alike : α → α → Prop} {first second : Option α}
    (related : Option.Rel alike first second) : Option.Rel There first second := by
  cases related with
  | some => exact .some trivial
  | none => exact .none

/-- What has parts has parts either way. -/
theorem parts_stay {value : Value} (suited : suits root slot value = true)
    (parts : ∀ atom, value ≠ .atom atom) :
    (∀ atom, resolve root value ≠ .atom atom) ∧ ∀ atom, stripped value ≠ .atom atom := by
  cases value with
  | atom atom => exact absurd rfl (parts atom)
  | list items => exact ⟨nofun, nofun⟩
  | object members =>
    refine ⟨?_, nofun⟩
    rcases suits_object suited with ⟨stays, -⟩ | ⟨-, replaced, -⟩
    · rw [stays]
      nofun
    · exact property_parts replaced

/-- What has parts is no switch that is on. -/
theorem switch_off {origin : Origin} (entered : origin.enter = .ok ()) (value : Value)
    (parts : ∀ atom, value ≠ .atom atom) : Decoder.switch.reading origin value = some false := by
  rw [Decoder.reading, Decoder.switch, Source.whole_standing entered]
  cases value with
  | atom atom => exact absurd rfl (parts atom)
  | _ => rfl

namespace Agrees

variable {α β : Type}

/-- A decoder agrees with itself if it does so on values that are no atoms. -/
theorem eq_of_parts {decode : Decoder α}
    (same : ∀ origin, origin.enter = .ok () → ∀ value other, (∀ atom, value ≠ .atom atom) →
      (∀ atom, other ≠ .atom atom) → decode.reading origin value = decode.reading origin other) :
    Agrees root slot (· = ·) decode := by
  intro origin entered value _ suited
  cases value with
  | atom atom => exact rel_of_eq rfl
  | list items => exact rel_of_eq (same origin entered _ _ nofun nofun)
  | object members =>
    obtain ⟨first, second⟩ := parts_stay suited nofun
    exact rel_of_eq (same origin entered _ _ first second)

/-- Nothing is read from what has parts. -/
theorem plain {decode : Decoder α} (plain : decode.Plain) : Agrees root slot (· = ·) decode :=
  eq_of_parts fun origin _ value other parts otherParts =>
    (plain origin value parts).trans (plain origin other otherParts).symm

/-- Switches are read the same with expressions and without. -/
theorem switch : Agrees root slot (· = ·) Decoder.switch :=
  eq_of_parts fun _ entered value other parts otherParts =>
    (switch_off entered value parts).trans (switch_off entered other otherParts).symm

/-- A decoder that agrees in any way agrees in what is there. -/
theorem there {alike : α → α → Prop} {decode : Decoder α}
    (agrees : Agrees root slot alike decode) : Agrees root slot There decode :=
  fun origin entered value normal suited => there_of (agrees origin entered value normal suited)

/-- A field reads alike if its decoder does. -/
theorem of {R : Type} {name : String} {decode : Decoder α} {put : α → R → R}
    {alike : α → α → Prop} {after : R → R → Prop} (agrees : Agrees root slot alike decode)
    (moves : ∀ first second, alike first second → Record.Moves after (put first) (put second)) :
    Agrees root slot (Record.Moves after) (Record.Field.of name decode put).read := by
  intro origin entered value normal suited
  rw [Record.Field.of_reading, Record.Field.of_reading]
  exact rel_map (agrees origin entered value normal suited) moves

end Agrees

/-! ## Properties -/

open Document (Property)

/-- The test for a property tells exactly what can be read as one. -/
theorem is_property_iff {value : Value} (normal : value.normal = value) :
    isProperty S value = true ↔ Property.Readable value := by
  have entered : Origin.value.enter = .ok () := rfl
  have scalar := Property.reading_iff (S := S) entered (Decoder.scalar (S := S)) normal
  rw [← scalar, isProperty, Decoder.reading, Source.standing_value]
  rfl

/-- Under a name, a property takes what a value comes to with expressions replaced if it takes it
without them. -/
theorem takes_agree (name : String) {value : Value} (normal : value.normal = value)
    (suited : suits root slot value = true) :
    Property.Takes name (resolve root value) ↔ Property.Takes name (stripped value) := by
  have each {α : Type} {decode : Decoder α} (plain : decode.Plain) :
      (decode.reading .value (resolve root value)).isSome = true ↔
        (decode.reading .value (stripped value)).isSome = true :=
    (there_iff ..).mp ((Agrees.plain plain).there .value rfl value normal suited)
  rw [Property.Takes, Property.Takes, each .code, each (.optional .index), each (.optional .text),
    each .boolean]

/-- An expression can stand in a property, as any text can. -/
theorem takes_text (text : String) : Property.Takes "x" (.text text) :=
  ⟨by simp, by simp, fun _ => rfl, by simp⟩

/-- A property takes a member with its expressions replaced if it takes it without them, or if the
member is itself an expression. -/
theorem takes_member {member : String × Value} (normal : member.2.normal = member.2)
    (suited : member.1 ≠ effectsMember → suits root slot member.2 = true) :
    Property.Takes member.1 (if member.1 == effectsMember then member.2
        else resolve root member.2) ↔
      isReference member = true ∨ Property.Takes member.1 (stripped member.2) := by
  by_cases effects : member.1 = effectsMember
  · have any (value : Value) : Property.Takes member.1 value := by
      simp [effects, Property.Takes, effectsMember]
    exact iff_of_true (any _) (.inr (any _))
  · have kept : isReference member = true → Property.Takes member.1 (stripped member.2) := by
      intro lost
      obtain ⟨text, rfl⟩ := reference_text lost
      exact takes_text text
    rw [if_neg (by simpa using effects), takes_agree member.1 normal (suited effects),
      or_iff_right_of_imp kept]

/-- What a property can be read from with its expressions replaced, it can be read from without
them, and the other way round. -/
theorem readable_agree (tidy : Tidy root) {value : Value} (normal : value.normal = value)
    (suited : suits root .property value = true) :
    Property.Readable (resolve root value) ↔ Property.Readable (stripped value) := by
  cases value with
  | atom atom => exact Iff.rfl
  | list items =>
    have each := suits_items suited
    have parts := (Value.normal_list_iff items).mp normal
    rw [resolve, stripped, resolve_items, stripped_items, Property.Readable, Property.Readable,
      List.length_map, List.length_map, List.zip_map_right, List.zip_map_right,
      List.forall_mem_map, List.forall_mem_map]
    refine and_congr_right fun _ => forall₂_congr fun entry among => ?_
    have inside := (List.of_mem_zip among).2
    exact takes_agree entry.1 (parts _ inside) (each _ inside)
  | object members =>
    rcases suits_object suited with ⟨stays, each⟩ | ⟨-, first, second⟩
    · have parts := ((Value.normal_object_iff members).mp normal).2
      rw [stays, stripped, resolve_members, stripped_members, Property.Readable, Property.Readable,
        List.forall_mem_map, List.forall_mem_map]
      constructor
      · intro taken member among
        obtain ⟨inside, kept⟩ := List.mem_filter.mp among
        have either := (takes_member (parts member inside) (each member inside)).mp
          (taken member inside)
        exact either.resolve_left (by simpa using kept)
      · intro taken member among
        refine (takes_member (parts member among) (each member among)).mpr ?_
        refine or_iff_not_imp_left.mpr fun kept => ?_
        exact taken member (List.mem_filter.mpr ⟨among, by simpa using kept⟩)
    · exact iff_of_true ((is_property_iff (tidy.resolved normal)).mp first)
        ((is_property_iff (stripped_normal normal)).mp second)

/-- A property is there with expressions if it is there without. -/
theorem Agrees.property {V : Type} (tidy : Tidy root) (decode : Decoder V) :
    Agrees root .property There (Property.decode (S := S) decode) := by
  intro origin entered value normal suited
  rw [there_iff, Property.reading_iff entered decode (tidy.resolved normal),
    Property.reading_iff entered decode (stripped_normal normal)]
  exact readable_agree tidy normal suited

variable (slot) in
/-- Nor does it matter for all of the members with certain names, if none of them is an expression
and a property is due under each of the names. -/
theorem named_agree (tidy : Tidy root) {members : List (String × Value)} (named : String → Prop)
    (properties : ∀ name, named name → name ≠ effectsMember ∧ slot.under name = .property)
    (noReference : ∀ member ∈ members, isReference member = true → ¬named member.1)
    (parts : ∀ member ∈ members, member.2.normal = member.2)
    (suited : ∀ member ∈ members, member.1 ≠ effectsMember →
      suits root (slot.under member.1) member.2 = true) :
    (∀ member ∈ resolveMembers root members, named member.1 → Property.Readable member.2) ↔
      ∀ member ∈ strippedMembers members, named member.1 → Property.Readable member.2 := by
  have same (member : String × Value) (among : member ∈ members) (isNamed : named member.1) :
      Property.Readable (if member.1 == effectsMember then member.2 else resolve root member.2) ↔
        Property.Readable (stripped member.2) := by
    obtain ⟨noEffects, isProperty⟩ := properties member.1 isNamed
    rw [if_neg (by simpa using noEffects)]
    exact readable_agree tidy (parts member among) (isProperty ▸ suited member among noEffects)
  rw [resolve_members, stripped_members, List.forall_mem_map, List.forall_mem_map]
  constructor
  · intro each member among isNamed
    have inside := List.mem_of_mem_filter among
    exact (same member inside isNamed).mp (each member inside isNamed)
  · intro each member among isNamed
    have kept : isReference member = false := by
      simpa using fun lost => noReference member among lost isNamed
    refine (same member among isNamed).mpr (each member ?_ isNamed)
    exact List.mem_filter.mpr ⟨among, by rw [kept]; rfl⟩

/-- A position that is split has a property under `x`, and so no expression. -/
theorem splits_agree (tidy : Tidy root) {members : List (String × Value)}
    (normal : (Value.object members).normal = .object members)
    (suited : ∀ member ∈ members, member.1 ≠ effectsMember →
      suits root .property member.2 = true) :
    Document.Position.Splits (resolveMembers root members) ↔
      Document.Position.Splits (strippedMembers members) := by
  have parts := ((Value.normal_object_iff members).mp normal).2
  have once := Value.names_once normal
  by_cases lost : ∃ member ∈ members, isReference member = true
  · obtain ⟨member, among, isLost⟩ := lost
    obtain ⟨text, rfl⟩ := reference_text isLost
    refine iff_of_false (fun splits => ?_) fun splits => ?_
    · have inside : ("x", Value.text text) ∈ resolveMembers root members := by
        rw [resolve_members]
        exact List.mem_map.mpr ⟨_, among, rfl⟩
      exact splits.2 _ inside (.inl rfl)
    · have named := splits.1 "x" (by simp)
      rw [stripped_members, List.map_map] at named
      obtain ⟨other, kept, same⟩ := List.mem_map.mp named
      obtain ⟨inside, isKept⟩ := List.mem_filter.mp kept
      obtain rfl := List.inj_on_of_nodup_map once inside among same
      simp [isLost] at isKept
  · have none : ∀ member ∈ members, isReference member = false := fun member among => by
      simpa using fun isLost => lost ⟨member, among, isLost⟩
    have all : members.filter (fun member => !isReference member) = members :=
      List.filter_eq_self.mpr fun member among => by rw [none member among]; rfl
    have halves := named_agree .property tidy
      (fun name => name = "x" ∨ name = "y") (by simp [effectsMember, Slot.under])
      (fun member among isLost => by simp [none member among] at isLost) parts suited
    have names : (resolveMembers root members).map Prod.fst =
        (strippedMembers members).map Prod.fst := by
      rw [resolve_members, stripped_members, all, List.map_map, List.map_map]
      rfl
    rw [Document.Position.Splits, Document.Position.Splits, names, halves]

/-- So is a position. -/
theorem Agrees.position (tidy : Tidy root) :
    Agrees root .property There (Document.Position.decode (S := S)) := by
  intro origin entered value normal suited
  have whole := readable_agree tidy normal suited
  rw [there_iff, Document.Position.reading_iff entered (tidy.resolved normal),
    Document.Position.reading_iff entered (stripped_normal normal)]
  cases value with
  | atom atom => exact whole
  | list items => exact whole
  | object members =>
    rcases suits_object suited with ⟨stays, each⟩ | ⟨-, first, second⟩
    · rw [stays] at whole ⊢
      exact or_congr (splits_agree tidy normal each) whole
    · exact iff_of_true
        (.of_property ((is_property_iff (tidy.resolved normal)).mp first))
        (.of_property ((is_property_iff (stripped_normal normal)).mp second))

/-! ## Records -/

section

variable {R : Type} {alike : R → R → Prop}

/-- Whether a field reads alike what stands under each of its names in a slot. Neither expressions
nor effects stand there. -/
def FieldAgrees (root : Node S P) (slot : Slot) (alike : R → R → Prop)
    (field : Record.Field R) : Prop :=
  ∀ name, field.goesBy name → name ≠ "x" ∧ name ≠ effectsMember ∧
    Agrees root (slot.under name) (Record.Moves alike) field.read

/-- A field with a default agrees where it stands if its decoder does there. -/
theorem FieldAgrees.of {α : Type} {name : String} {decode : Decoder α} {put : α → R → R}
    {before : α → α → Prop} (noExpression : name ≠ "x") (noEffects : name ≠ effectsMember)
    (agrees : Agrees root (slot.under name) before decode)
    (moves : ∀ first second, before first second → Record.Moves alike (put first) (put second)) :
    FieldAgrees root slot alike (.of name decode put) := by
  intro called goes
  obtain rfl : name = called := by
    simpa [Record.Field.of, Record.Field.goesBy] using goes
  exact ⟨noExpression, noEffects, agrees.of moves⟩

/-- Whether a field reads alike what stands under its names among some members. No expression stands
there. -/
structure FieldReads (root : Node S P) (members : List (String × Value)) (alike : R → R → Prop)
    (field : Record.Field R) : Prop where
  noExpression : field.goesBy "x" = false
  reads : ∀ origin, origin.enter = .ok () → ∀ member ∈ members, field.goesBy member.1 →
    Option.Rel (Record.Moves alike)
      (Decoder.reading origin field.read
        (if member.1 == effectsMember then member.2 else resolve root member.2))
      (Decoder.reading origin field.read (stripped member.2))

omit [Scalar S] in
/-- Records are read alike from members that their fields read alike. -/
theorem members_alike {origin : Origin} (entered : origin.enter = .ok ()) (name : String)
    {blank : R} (start : alike blank blank) {fields : List (Record.Field R)}
    {members : List (String × Value)}
    (each : ∀ field ∈ fields, FieldReads root members alike field) :
    Option.Rel alike
      ((Record.decode name blank fields).reading origin (.object (resolveMembers root members)))
      ((Record.decode name blank fields).reading origin (.object (strippedMembers members))) := by
  rw [resolve_members, stripped_members]
  refine Record.decode_objects_alike entered entered name start members _ ?_
    (fun member => if member.1 == effectsMember then member.2 else resolve root member.2)
    (fun member => stripped member.2)
    (List.forall₂_same.mpr fun field isField =>
      ⟨⟨rfl, rfl, rfl⟩, (each field isField).reads origin entered⟩)
  intro member _ dropped
  obtain ⟨text, rfl⟩ := reference_text (by simpa using dropped)
  refine List.any_eq_false.mpr fun field isField goes => ?_
  exact absurd goes (by simp [(each field isField).noExpression])

/-- A field that agrees reads the same from the members with expressions and without. -/
theorem FieldAgrees.reads {field : Record.Field R} (agrees : FieldAgrees root slot alike field)
    {members : List (String × Value)} (parts : ∀ member ∈ members, member.2.normal = member.2)
    (suited : ∀ member ∈ members, member.1 ≠ effectsMember →
      suits root (slot.under member.1) member.2 = true) :
    FieldReads root members alike field := by
  refine ⟨by simpa using fun goes => (agrees "x" goes).1 rfl, ?_⟩
  intro origin entered member among goes
  obtain ⟨-, noEffects, reads⟩ := agrees member.1 goes
  rw [if_neg (by simpa using noEffects)]
  exact reads origin entered member.2 (parts member among) (suited member among noEffects)

/-- Records are read alike from members in their slots. -/
theorem members_agree {origin : Origin} (entered : origin.enter = .ok ()) (name : String)
    {blank : R} (start : alike blank blank) {fields : List (Record.Field R)}
    (each : ∀ field ∈ fields, FieldAgrees root slot alike field)
    {members : List (String × Value)} (parts : ∀ member ∈ members, member.2.normal = member.2)
    (suited : ∀ member ∈ members, member.1 ≠ effectsMember →
      suits root (slot.under member.1) member.2 = true) :
    Option.Rel alike
      ((Record.decode name blank fields).reading origin (.object (resolveMembers root members)))
      ((Record.decode name blank fields).reading origin (.object (strippedMembers members))) :=
  members_alike entered name start fun field isField => (each field isField).reads parts suited

/-- A fragment is read as a value that stands by itself. -/
theorem read_standing {α : Type} (decode : Decoder α) (value : Value) :
    read? decode value = decode.reading .value value := by
  rw [Decoder.reading, Source.standing_value]
  rfl

/-- Below a record, there are only properties. -/
theorem record_agrees (name : String) {blank : R} (start : alike blank blank)
    {fields : List (Record.Field R)} (each : ∀ field ∈ fields, FieldAgrees root .record alike field) :
    Agrees root .record alike (Record.decode name blank fields) := by
  intro origin entered value normal suited
  cases value with
  | atom atom => exact .none
  | list items =>
    have parts := (Value.normal_list_iff items).mp normal
    rw [resolve, stripped, resolve_items, stripped_items]
    refine Record.decode_lists_alike entered entered name start items _ _
      (List.forall₂_same.mpr fun field isField => ⟨⟨rfl, rfl, rfl⟩, fun item among => ?_⟩)
    have own : field.goesBy field.name := by simp [Record.Field.goesBy]
    exact (each field isField field.name own).2.2 origin entered item (parts item among)
      (suits_items suited item among)
  | object members =>
    rcases suits_object suited with ⟨stays, inSlots⟩ | ⟨noRecord, -⟩
    · rw [stays, stripped]
      exact members_agree entered name start each ((Value.normal_object_iff members).mp normal).2
        inSlots
    · cases noRecord

end

/-- A field that can be read both times or neither time, of a record of which nothing more is said. -/
theorem FieldAgrees.there {R α : Type} {name : String} {decode : Decoder α} {put : α → R → R}
    {before : α → α → Prop} (agrees : Agrees root (slot.under name) before decode)
    (noExpression : name ≠ "x") (noEffects : name ≠ effectsMember) :
    FieldAgrees root slot There (.of name decode put) :=
  .of noExpression noEffects agrees fun _ _ _ _ _ _ => trivial

section

variable (tidy : Tidy root)
include tidy

/-- The fields of a transform hold properties, in a record of its own as well as in a shape. -/
theorem transform_fields (properties : ∀ name ∈ ["a", "p", "s", "r", "rz", "o", "sk", "sa"],
      slot.under name = .property) :
    ∀ field ∈ Document.Transform.fields (S := S), FieldAgrees root slot There field := by
  have property {V : Type} {decode : Decoder V} {name : String}
      (isProperty : slot.under name = .property) :
      Agrees root (slot.under name) There (Property.decode (S := S) decode) :=
    isProperty ▸ Agrees.property tidy decode
  have position : Agrees root (slot.under "p") There (Document.Position.decode (S := S)) :=
    properties "p" (by simp) ▸ Agrees.position tidy
  simp only [Document.Transform.fields, List.forall_mem_cons]
  refine ⟨?_, ?_, ?_, ?_, ?_, ?_, ?_, by simp⟩
  · exact .there (property (properties "a" (by simp))) (by decide) (by decide)
  · exact .there position (by decide) (by decide)
  · exact .there (property (properties "s" (by simp))) (by decide) (by decide)
  · intro called goes
    have named : called = "r" ∨ called = "rz" := by
      simpa [Document.Transform.rotationField, Record.Field.of, Record.Field.goesBy,
        @eq_comm _ _ called] using goes
    have agrees : Agrees root (slot.under called) There (Document.Amount.decode (S := S)) := by
      rcases named with rfl | rfl <;> exact property (properties _ (by simp))
    have moves : Agrees root (slot.under called) (Record.Moves There)
        (Record.Field.of "r" (Document.Amount.decode (S := S))
          fun rotation (record : Document.Transform S) => { record with rotation }).read :=
      agrees.of fun _ _ _ _ _ _ => trivial
    refine ⟨?_, ?_, moves⟩
    all_goals rcases named with rfl | rfl <;> decide
  · exact .there (property (properties "o" (by simp))) (by decide) (by decide)
  · exact .there (property (properties "sk" (by simp))) (by decide) (by decide)
  · exact .there (property (properties "sa" (by simp))) (by decide) (by decide)

/-- Transforms are there with expressions if they are there without. -/
theorem transform_agrees : Agrees root .record There (Document.Transform.decode (S := S)) :=
  record_agrees _ trivial (transform_fields tidy fun _ _ => rfl)

/-- So are tables of gradients. -/
theorem table_agrees : Agrees root .record There (Document.GradientTable.decode (S := S)) := by
  refine record_agrees _ trivial ?_
  simp only [Document.GradientTable.fields, List.forall_mem_cons]
  refine ⟨?_, ?_, by simp⟩
  · exact .there (.plain .index) (by decide) (by decide)
  · exact .there (.property tidy _) (by decide) (by decide)

/-- So are dashes. -/
theorem dash_agrees : Agrees root .record There (Document.Dash.decode (S := S)) := by
  refine record_agrees _ trivial ?_
  simp only [Document.Dash.fields, List.forall_mem_cons]
  refine ⟨?_, ?_, by simp⟩
  · exact .there (.plain (.optional .text)) (by decide) (by decide)
  · exact .there (.property tidy _) (by decide) (by decide)

/-- A dash pattern is read entry by entry. -/
theorem dashes_agree :
    Agrees root .dashes There (Decoder.list (Document.Dash.decode (S := S))) := by
  intro origin entered value normal suited
  cases value with
  | atom atom => exact .none
  | list items =>
    have parts := (Value.normal_list_iff items).mp normal
    have each : ∀ item ∈ items, Option.Rel There
        ((Document.Dash.decode (S := S)).reading origin (resolve root item))
        ((Document.Dash.decode (S := S)).reading origin (stripped item)) := fun item among =>
      dash_agrees tidy origin entered item (parts item among) (suits_items suited item among)
    rw [resolve, stripped, resolve_items, stripped_items]
    exact there_of (Decoder.list_alike entered entered each)
  | object members =>
    rcases suits_object suited with ⟨stays, -⟩ | ⟨noDashes, -⟩
    · rw [stays]
      exact .none
    · cases noDashes

/-- So are steps of a repeater. -/
theorem step_agrees : Agrees root .record There (Document.Step.decode (S := S)) := by
  intro origin entered value normal suited
  cases value with
  | atom atom => exact .none
  | list items => exact .none
  | object members =>
    rcases suits_object suited with ⟨stays, inSlots⟩ | ⟨noRecord, -⟩
    · have parts := ((Value.normal_object_iff members).mp normal).2
      have whole := tidy.resolved normal
      rw [stays] at whole
      rw [there_iff, stays, stripped, Document.Step.reading_iff entered whole,
        Document.Step.reading_iff entered (stripped_normal normal)]
      have own := named_agree .record tidy
        (fun name => name = "so" ∨ name = "eo") (by simp [effectsMember, Slot.under])
        (fun member among lost => by
          obtain ⟨text, rfl⟩ := reference_text lost
          simp) parts inSlots
      have kept : Origin.kept.enter = .ok () := rfl
      have blank : There ({} : Document.Transform S) {} := trivial
      have left := members_agree kept "Transform" blank (transform_fields tidy fun _ _ => rfl)
        (fun member among => parts member (List.mem_of_mem_filter among))
        (fun member among => inSlots member (List.mem_of_mem_filter (p := Document.Step.isLeft) among))
      have resolved : resolveMembers root (members.filter Document.Step.isLeft) =
          (resolveMembers root members).filter Document.Step.isLeft := by
        rw [resolve_members, resolve_members, List.filter_map]
        rfl
      have strippedLeft : strippedMembers (members.filter Document.Step.isLeft) =
          (strippedMembers members).filter Document.Step.isLeft := by
        rw [stripped_members, stripped_members, List.filter_map, List.filter_filter,
          List.filter_filter]
        exact congrArg _ (List.filter_congr fun member _ => Bool.and_comm ..)
      rw [there_iff, resolved, strippedLeft] at left
      exact and_congr own left
    · cases noRecord

end

end

end VectorMotion.Scene.Expression
