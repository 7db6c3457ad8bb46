import VectorMotion.Proofs.Scene.Blanking
import VectorMotion.Proofs.Scene.Controls

/-!
# Readings that overlook contents

From a fragment and from what is left of it when contents are blanked, decoders read the same but
for what properties hold, or nothing either time. For content is read leniently: whatever stands
there, it stands for something. So this is first told of properties, and then of everything that is
made of them: positions, transforms, shapes, the effects of a layer and the layer itself. What a
record says besides its properties is named for each, as a relation between two of them.
-/

namespace VectorMotion.Scene.Expression

open Json

/-- Whether a decoder reads alike what stands in a slot and what is left of it when contents are
blanked. -/
def Overlooks (slot : Slot) {α : Type} (alike : α → α → Prop) (decode : Decoder α) : Prop :=
  ∀ origin, origin.enter = .ok () → ∀ value,
    Option.Rel alike (decode.reading origin value) (decode.reading origin (blanked slot value))

variable {slot : Slot} {R α : Type} {alike : R → R → Prop}

/-- Without parts there are no contents. -/
theorem Overlooks.of_parts {decode : Decoder α}
    (same : ∀ origin, origin.enter = .ok () → ∀ value other, (∀ atom, value ≠ .atom atom) →
      (∀ atom, other ≠ .atom atom) → decode.reading origin value = decode.reading origin other) :
    Overlooks slot (· = ·) decode := by
  intro origin entered value
  cases value with
  | atom atom => exact rel_of_eq rfl
  | list items => exact rel_of_eq (same origin entered _ _ nofun nofun)
  | object members => exact rel_of_eq (same origin entered _ _ nofun nofun)

/-- What is no content, and reads atoms only, overlooks all contents. -/
theorem Overlooks.plain {decode : Decoder α} (plain : decode.Plain) :
    Overlooks slot (· = ·) decode :=
  .of_parts fun origin _ value other parts otherParts =>
    (plain origin value parts).trans (plain origin other otherParts).symm

/-- A switch overlooks contents, since it has none. -/
theorem Overlooks.switch : Overlooks slot (· = ·) Decoder.switch :=
  .of_parts fun _ entered value other parts otherParts =>
    (switch_off entered value parts).trans (switch_off entered other otherParts).symm

/-- Whether a field reads alike what stands under its names in a slot and what is left of it. -/
def FieldOverlooks (slot : Slot) (alike : R → R → Prop) (field : Record.Field R) : Prop :=
  ∀ origin, origin.enter = .ok () → ∀ name, field.goesBy name → ∀ value,
    Option.Rel (Record.Moves alike) (Decoder.reading origin field.read value)
      (Decoder.reading origin field.read (blankedMember slot (name, value)))

/-- A field overlooks contents if its decoder does and if what is read is put in its place. -/
theorem Overlooks.field {name : String} {decode : Decoder α} {put : α → R → R}
    {before : α → α → Prop} (overlooks : Overlooks slot before decode)
    (moves : ∀ first second, before first second → Record.Moves alike (put first) (put second)) :
    Overlooks slot (Record.Moves alike) (Record.Field.of name decode put).read := by
  intro origin entered value
  rw [Record.Field.of_reading, Record.Field.of_reading]
  exact rel_map (overlooks origin entered value) moves

/-- A field with a default overlooks contents where it stands if its decoder does there. -/
theorem FieldOverlooks.of {name : String} {decode : Decoder α} {put : α → R → R}
    {before : α → α → Prop} (noContent : slot.holds name = false)
    (overlooks : Overlooks (slot.under name) before decode)
    (moves : ∀ first second, before first second → Record.Moves alike (put first) (put second)) :
    FieldOverlooks slot alike (.of name decode put) := by
  intro origin entered called goes value
  obtain rfl : name = called := by
    simpa [Record.Field.of, Record.Field.goesBy] using goes
  rw [blankedMember, if_neg (by simp [noContent])]
  exact overlooks.field moves origin entered value

/-- So does a field that must be there. -/
theorem FieldOverlooks.must {name : String} {decode : Decoder α} {put : α → R → R}
    {before : α → α → Prop} (noContent : slot.holds name = false)
    (overlooks : Overlooks (slot.under name) before decode)
    (moves : ∀ first second, before first second → Record.Moves alike (put first) (put second)) :
    FieldOverlooks slot alike (.must name decode put) :=
  FieldOverlooks.of noContent overlooks moves

/-- Records are read alike from the members of an object in a slot and from what is left of them. -/
theorem members_overlooked {origin : Origin} (entered : origin.enter = .ok ()) (name : String)
    {blank : R} (start : alike blank blank) {fields : List (Record.Field R)}
    (each : ∀ field ∈ fields, FieldOverlooks slot alike field) (members : List (String × Value)) :
    Option.Rel alike
      ((Record.decode name blank fields).reading origin (.object members))
      ((Record.decode name blank fields).reading origin
        (.object (blankedMembers slot members))) := by
  have read := Record.decode_objects_alike entered entered name start members (fun _ => true)
    (by simp) Prod.snd (blankedMember slot) (List.forall₂_same.mpr fun field isField =>
      ⟨⟨rfl, rfl, rfl⟩,
        fun member _ goes => each field isField origin entered member.1 goes member.2⟩)
  rw [blanked_members]
  simpa using read

/-- Records that may also be lists are read alike if their fields read alike what stands under their
names and what stands in their order. -/
theorem Overlooks.record (name : String) {blank : R} (start : alike blank blank)
    {fields : List (Record.Field R)} (each : ∀ field ∈ fields, FieldOverlooks slot alike field)
    (items : ∀ field ∈ fields, Overlooks slot.within (Record.Moves alike) field.read) :
    Overlooks slot alike (Record.decode name blank fields) := by
  intro origin entered value
  cases value with
  | atom atom => exact .none
  | list entries =>
    have read := Record.decode_lists_alike entered entered name start entries id
      (blanked slot.within) (List.forall₂_same.mpr fun field isField =>
        ⟨⟨rfl, rfl, rfl⟩, fun item _ => items field isField origin entered item⟩)
    rw [List.map_id] at read
    rwa [blanked, blanked_items]
  | object members => exact members_overlooked entered name start each members

/-- Below a record there are only properties. -/
theorem Overlooks.of_record (name : String) {blank : R} (start : alike blank blank)
    {fields : List (Record.Field R)} (each : ∀ field ∈ fields, FieldOverlooks .record alike field) :
    Overlooks .record alike (Record.decode name blank fields) := by
  refine .record name start each fun field isField origin entered value => ?_
  have own : field.goesBy field.name := by simp [Record.Field.goesBy]
  exact each field isField origin entered field.name own value

section

variable [Scalar S]

open Document (Property)

/-- Whatever stands for the content of a property, it is read. -/
theorem Overlooks.property {V : Type} (decode : Decoder V) :
    Overlooks .property There (Property.decode (S := S) decode) := by
  have moves {α : Type} (put : α → Property S V → Property S V) {before : α → α → Prop} :
      ∀ first second, before first second → Record.Moves There (put first) (put second) :=
    fun _ _ _ _ _ _ => trivial
  have content {origin : Origin} (entered : origin.enter = .ok ()) (value other : Value) :
      Option.Rel There ((Document.Content.decode (S := S) decode).reading origin value)
        ((Document.Content.decode (S := S) decode).reading origin other) := by
    rw [Property.content_reading entered, Property.content_reading entered]
    exact .some trivial
  refine .record "Property" trivial ?_ ?_
  · simp only [Property.fields, List.forall_mem_cons]
    refine ⟨?_, ?_, ?_, ?_, ?_, by simp⟩
    · exact .of rfl (.plain .code) (moves _)
    · intro origin entered name _ value
      rw [Record.Field.of_reading, Record.Field.of_reading]
      exact rel_map (content entered ..) (moves _)
    · exact .of rfl (.plain (.optional .index)) (moves _)
    · exact .of rfl (.plain (.optional .text)) (moves _)
    · exact .of rfl (.plain .boolean) (moves _)
  · simp only [Property.fields, List.forall_mem_cons]
    refine ⟨?_, ?_, ?_, ?_, ?_, by simp⟩
    · exact .field (.plain .code) (moves _)
    · exact .field (fun origin entered value => content entered ..) (moves _)
    · exact .field (.plain (.optional .index)) (moves _)
    · exact .field (.plain (.optional .text)) (moves _)
    · exact .field (.plain .boolean) (moves _)

/-- So a record of which nothing is told that a property says reads it alike. -/
theorem FieldOverlooks.property {V : Type} {name : String} {decode : Decoder V}
    {put : Property S V → R → R} (noContent : slot.holds name = false)
    (isProperty : slot.under name = .property)
    (untold : ∀ first second, Record.Moves alike (put first) (put second)) :
    FieldOverlooks slot alike (.of name (Property.decode decode) put) :=
  .of noContent (isProperty ▸ Overlooks.property decode) fun first second _ => untold first second

/-! ## Records of properties -/

open Document (Position)

/-- Two positions in the same form. -/
def SameForm (first second : Position S) : Prop := first.isSplit = second.isSplit

/-- Whether a position is split depends on the names in it and not on contents. -/
theorem Overlooks.position : Overlooks .property SameForm (Position.decode (S := S)) := by
  intro origin entered value
  have kept : Origin.kept.enter = .ok () := rfl
  have unified :=
    Overlooks.property (S := S) (Document.Triple.decodePoint (S := S)) .kept kept value
  have split : Option.Rel SameForm
      (Decoder.reading .kept (Position.decodeSplit (S := S)) value)
      (Decoder.reading .kept (Position.decodeSplit (S := S)) (blanked .property value)) := by
    cases value with
    | atom atom => exact .none
    | list items => exact .none
    | object members =>
      have halves : ∀ half ∈ Position.halves (S := S), FieldOverlooks .property There half := by
        simp only [Position.halves, List.forall_mem_cons]
        refine ⟨?_, ?_, by simp⟩
        all_goals exact .must rfl (.property _) fun _ _ _ _ _ _ => trivial
      rw [blanked, Position.split_reading, Position.split_reading]
      exact rel_map (members_overlooked kept "Position" trivial halves members) fun _ _ _ => rfl
  -- The split form is tried first, and where it fails, it fails both times.
  rw [Position.reading_either entered, Position.reading_either entered]
  rcases rel_cases split with ⟨none, noOther⟩ | ⟨first, second, read, otherRead, same⟩
  · rw [none, noOther]
    exact rel_map unified fun _ _ _ => rfl
  · rw [read, otherRead]
    exact .some same

/-- Two transforms that have their positions in the same form. -/
def SameForms (first second : Document.Transform S) : Prop :=
  SameForm first.position second.position

/-- The fields of a transform hold properties, in a record of its own as well as in a shape. -/
theorem transform_fields_overlook (noContent : ∀ name, slot.holds name = false)
    (properties : ∀ name ∈ ["a", "p", "s", "r", "rz", "o", "sk", "sa"],
      slot.under name = .property) :
    ∀ field ∈ Document.Transform.fields (S := S), FieldOverlooks slot SameForms field := by
  have property {V : Type} {decode : Decoder V} {name : String}
      {put : Property S V → Document.Transform S → Document.Transform S}
      (isProperty : slot.under name = .property)
      (kept : ∀ property transform, (put property transform).position = transform.position) :
      FieldOverlooks slot SameForms (.of name (Property.decode decode) put) := by
    refine .property (noContent name) isProperty fun first second record other same => ?_
    rwa [SameForms, kept, kept]
  have position : FieldOverlooks slot SameForms (.of "p" (Position.decode (S := S))
      fun position (record : Document.Transform S) => { record with position }) :=
    .of (noContent "p") (properties "p" (by simp) ▸ Overlooks.position) fun _ _ same _ _ _ => same
  simp only [Document.Transform.fields, List.forall_mem_cons]
  refine ⟨?_, position, ?_, ?_, ?_, ?_, ?_, by simp⟩
  · exact property (properties "a" (by simp)) fun _ _ => rfl
  · exact property (properties "s" (by simp)) fun _ _ => rfl
  · intro origin entered called goes value
    have named : called = "r" ∨ called = "rz" := by
      simpa [Document.Transform.rotationField, Record.Field.of, Record.Field.goesBy,
        @eq_comm _ _ called] using goes
    have isProperty : slot.under called = .property := by
      rcases named with rfl | rfl <;> exact properties _ (by simp)
    have reads : FieldOverlooks slot SameForms (.of called (Document.Amount.decode (S := S))
        fun rotation (record : Document.Transform S) => { record with rotation }) :=
      property isProperty fun _ _ => rfl
    exact reads origin entered called (by simp [Record.Field.of, Record.Field.goesBy]) value
  · exact property (properties "o" (by simp)) fun _ _ => rfl
  · exact property (properties "sk" (by simp)) fun _ _ => rfl
  · exact property (properties "sa" (by simp)) fun _ _ => rfl

/-- Transforms of any content have the same forms. -/
theorem Overlooks.transform : Overlooks .record SameForms (Document.Transform.decode (S := S)) :=
  .of_record "Transform" (by exact rfl) (transform_fields_overlook (fun _ => rfl) fun _ _ => rfl)

/-- Two steps of repeaters whose transforms have their positions in the same form. -/
def SameSteps (first second : Document.Step S) : Prop := SameForms first.transform second.transform

/-- Steps of a repeater of any content have the same forms. -/
theorem Overlooks.step : Overlooks .record SameSteps (Document.Step.decode (S := S)) := by
  intro origin entered value
  cases value with
  | atom atom => exact .none
  | list items => exact .none
  | object members =>
    have own : ∀ field ∈ Document.Step.fields (S := S), FieldOverlooks .record SameSteps field := by
      simp only [Document.Step.fields, List.forall_mem_cons]
      refine ⟨?_, ?_, by simp⟩
      · exact .property rfl rfl fun _ _ _ _ same => same
      · exact .property rfl rfl fun _ _ _ _ same => same
    have left : blankedMembers .record (members.filter Document.Step.isLeft) =
        (blankedMembers .record members).filter Document.Step.isLeft := by
      rw [blanked_members, blanked_members, List.filter_map]
      rfl
    have kept : Origin.kept.enter = .ok () := rfl
    rw [blanked, Document.Step.reading_both entered, Document.Step.reading_both entered, ← left]
    refine rel_bind (members_overlooked entered "Step" (by exact rfl) own members)
      fun first second _ => ?_
    exact rel_map (Overlooks.transform .kept kept (.object (members.filter Document.Step.isLeft)))
      fun _ _ same => same

/-- Two tables with the same number of colour stops. -/
def SameCount (first second : Document.GradientTable S) : Prop := first.count = second.count

/-- Tables of a gradient of any content count the same colours. -/
theorem Overlooks.table : Overlooks .record SameCount (Document.GradientTable.decode (S := S)) := by
  refine .of_record "GradientColors" (by exact rfl) ?_
  simp only [Document.GradientTable.fields, List.forall_mem_cons]
  refine ⟨?_, ?_, by simp⟩
  · exact .of rfl (.plain .index) fun _ _ same _ _ _ => same
  · exact .property rfl rfl fun _ _ _ _ same => same

/-- Two entries of dash patterns with the same name. -/
def SameName (first second : Document.Dash S) : Prop := first.name = second.name

/-- A dash pattern is read entry by entry. -/
theorem Overlooks.dashes :
    Overlooks .dashes (List.Forall₂ SameName) (Decoder.list (Document.Dash.decode (S := S))) := by
  have entry : Overlooks .record SameName (Document.Dash.decode (S := S)) := by
    refine .of_record "DashProperty" (by exact rfl) ?_
    simp only [Document.Dash.fields, List.forall_mem_cons]
    refine ⟨?_, ?_, by simp⟩
    · exact .of rfl (.plain (.optional .text)) fun _ _ same _ _ _ => same
    · exact .property rfl rfl fun _ _ _ _ same => same
  intro origin entered value
  cases value with
  | atom atom => exact .none
  | list items =>
    have read : Option.Rel (List.Forall₂ SameName)
        ((Decoder.list (Document.Dash.decode (S := S))).reading origin (.list (items.map id)))
        ((Decoder.list Document.Dash.decode).reading origin
          (.list (items.map (blanked .record)))) :=
      Decoder.list_alike entered entered fun item _ => entry origin entered item
    rw [List.map_id] at read
    rwa [blanked, blanked_items]
  | object members => exact .none

/-- A label has no properties. -/
theorem label_overlooked (members : List (String × Value)) :
    read? Document.Label.decode (.object (blankedMembers slot members)) =
      read? Document.Label.decode (.object members) := by
  have same {α : Type} {put : α → Document.Label → Document.Label} :
      ∀ first second, first = second → Record.Moves (· = ·) (put first) (put second) := by
    rintro first _ rfl label _ rfl
    rfl
  have each : ∀ field ∈ Document.Label.fields, FieldOverlooks slot (· = ·) field := by
    simp only [Document.Label.fields, List.forall_mem_cons]
    refine ⟨?_, ?_, ?_, ?_, by simp⟩
    · exact .of (by simp [Slot.holds, contentMember]) (.plain (.optional .text)) same
    · exact .of (by simp [Slot.holds, contentMember]) (.plain (.optional .text)) same
    · exact .of (by simp [Slot.holds, contentMember]) .switch same
    · exact .of (by simp [Slot.holds, contentMember]) .switch same
  rw [read_standing, read_standing]
  exact (eq_of_rel (members_overlooked rfl "NodeInfo" rfl each members)).symm

/-!
## Shapes

The direction is all that an outline says besides its properties, the rule all that a fill says, and
the mode all that a trim says.
-/

/-- The fields of a rectangle overlook contents. -/
theorem rectangle_fields_overlook : ∀ field ∈ Document.Rectangle.fields (S := S),
    FieldOverlooks .shape (fun first second => first.direction = second.direction) field := by
  simp only [Document.Rectangle.fields, List.forall_mem_cons]
  refine ⟨?_, ?_, ?_, ?_, by simp⟩
  · exact .property rfl rfl fun _ _ _ _ same => same
  · exact .property rfl rfl fun _ _ _ _ same => same
  · exact .property rfl rfl fun _ _ _ _ same => same
  · exact .of rfl (.plain .code) fun _ _ same _ _ _ => same

/-- So do those of an ellipse. -/
theorem ellipse_fields_overlook : ∀ field ∈ Document.Ellipse.fields (S := S),
    FieldOverlooks .shape (fun first second => first.direction = second.direction) field := by
  simp only [Document.Ellipse.fields, List.forall_mem_cons]
  refine ⟨?_, ?_, ?_, by simp⟩
  · exact .property rfl rfl fun _ _ _ _ same => same
  · exact .property rfl rfl fun _ _ _ _ same => same
  · exact .of rfl (.plain .code) fun _ _ same _ _ _ => same

/-- So do those of a circle. -/
theorem circle_fields_overlook : ∀ field ∈ Document.Circle.fields (S := S),
    FieldOverlooks .shape (fun first second => first.direction = second.direction) field := by
  simp only [Document.Circle.fields, List.forall_mem_cons]
  refine ⟨?_, ?_, ?_, by simp⟩
  · exact .property rfl rfl fun _ _ _ _ same => same
  · exact .property rfl rfl fun _ _ _ _ same => same
  · exact .of rfl (.plain .code) fun _ _ same _ _ _ => same

/-- So do those of a free form. -/
theorem free_form_fields_overlook : ∀ field ∈ Document.FreeForm.fields (S := S),
    FieldOverlooks .shape (fun first second => first.direction = second.direction) field := by
  simp only [Document.FreeForm.fields, List.forall_mem_cons]
  refine ⟨?_, ?_, by simp⟩
  · exact .property rfl rfl fun _ _ _ _ same => same
  · exact .of rfl (.plain .code) fun _ _ same _ _ _ => same

/-- So do those of a fill. -/
theorem fill_fields_overlook : ∀ field ∈ Document.Fill.fields (S := S),
    FieldOverlooks .shape (fun first second => first.rule = second.rule) field := by
  simp only [Document.Fill.fields, List.forall_mem_cons]
  refine ⟨?_, ?_, ?_, by simp⟩
  · exact .property rfl rfl fun _ _ _ _ same => same
  · exact .property rfl rfl fun _ _ _ _ same => same
  · exact .of rfl (.plain (.optional .code)) fun _ _ same _ _ _ => same

/-- Two gradients of the same kind with the same rule, whose tables have the same number of colour
stops. -/
def SameGradient (first second : Document.GradientFill S) : Prop :=
  first.kind = second.kind ∧ SameCount first.table second.table ∧ first.rule = second.rule

/-- So do those of a gradient fill. -/
theorem gradient_fields_overlook : ∀ field ∈ Document.GradientFill.fields (S := S),
    FieldOverlooks .shape SameGradient field := by
  simp only [Document.GradientFill.fields, List.forall_mem_cons]
  refine ⟨?_, ?_, ?_, ?_, ?_, ?_, ?_, ?_, by simp⟩
  case refine_4 => exact .of rfl (.plain .code) fun _ _ kind _ _ same => ⟨kind, same.2⟩
  case refine_7 => exact .of rfl .table fun _ _ count _ _ same => ⟨same.1, count, same.2.2⟩
  case refine_8 =>
    exact .of rfl (.plain (.optional .code)) fun _ _ rule _ _ same => ⟨same.1, same.2.1, rule⟩
  all_goals exact .property rfl rfl fun _ _ _ _ same => same

/-- Two strokes with the same ends, corners and limit, and with the same names in their dash
patterns. -/
def SameStroke (first second : Document.Stroke S) : Prop :=
  first.cap = second.cap ∧ first.join = second.join ∧ first.miterLimit = second.miterLimit ∧
    List.Forall₂ SameName first.dashes second.dashes

/-- So do those of a stroke. -/
theorem stroke_fields_overlook : ∀ field ∈ Document.Stroke.fields (S := S),
    FieldOverlooks .shape SameStroke field := by
  simp only [Document.Stroke.fields, List.forall_mem_cons]
  refine ⟨?_, ?_, ?_, ?_, ?_, ?_, ?_, by simp⟩
  case refine_4 => exact .of rfl (.plain .code) fun _ _ cap _ _ same => ⟨cap, same.2⟩
  case refine_5 => exact .of rfl (.plain .code) fun _ _ join _ _ same => ⟨same.1, join, same.2.2⟩
  case refine_6 =>
    exact .of rfl (.plain (.optional .scalar)) fun _ _ limit _ _ same =>
      ⟨same.1, same.2.1, limit, same.2.2.2⟩
  case refine_7 =>
    exact .of rfl .dashes fun _ _ dashes _ _ same => ⟨same.1, same.2.1, same.2.2.1, dashes⟩
  all_goals exact .property rfl rfl fun _ _ _ _ same => same

/-- So do those of a trim. -/
theorem trim_fields_overlook : ∀ field ∈ Document.Trim.fields (S := S),
    FieldOverlooks .shape (fun first second => first.mode = second.mode) field := by
  simp only [Document.Trim.fields, List.forall_mem_cons]
  refine ⟨?_, ?_, ?_, ?_, by simp⟩
  · exact .property rfl rfl fun _ _ _ _ same => same
  · exact .property rfl rfl fun _ _ _ _ same => same
  · exact .property rfl rfl fun _ _ _ _ same => same
  · exact .of rfl (.plain .code) fun _ _ same _ _ _ => same

/-- Two repeaters that put their copies in the same order, and whose steps are of the same form. -/
def SameRepeater (first second : Document.Repeater S) : Prop :=
  first.composite = second.composite ∧ SameSteps first.step second.step

/-- So do those of a repeater. -/
theorem repeater_fields_overlook : ∀ field ∈ Document.Repeater.fields (S := S),
    FieldOverlooks .shape SameRepeater field := by
  simp only [Document.Repeater.fields, List.forall_mem_cons]
  refine ⟨?_, ?_, ?_, ?_, by simp⟩
  · exact .property rfl rfl fun _ _ _ _ same => same
  · exact .property rfl rfl fun _ _ _ _ same => same
  · exact .of rfl (.plain .code) fun _ _ composite _ _ same => ⟨composite, same.2⟩
  · exact .of rfl .step fun _ _ step _ _ same => ⟨same.1, step⟩

/-! ## Layers -/

/-- A value in normal form, and the value in a slot with its contents blanked. -/
def Blanked (slot : Slot) (value other : Value) : Prop :=
  value.normal = value ∧ other = blanked slot value

omit [Scalar S] in
/-- Values that are read as they stand are blanked one by one. -/
theorem Overlooks.whole (slot : Slot) :
    Overlooks slot (List.Forall₂ (Blanked slot.within)) (Decoder.list Source.toValue) := by
  intro origin entered value
  cases value with
  | atom atom => exact .none
  | list items =>
    have item (item : Value) : Option.Rel (Blanked slot.within)
        (Decoder.reading origin Source.toValue item)
        (Decoder.reading origin Source.toValue (blanked slot.within item)) := by
      have read := Source.whole_standing entered item
      rw [Decoder.reading, Decoder.reading, read, Source.whole_standing entered]
      exact .some ⟨Source.normal_whole _ _ read, blanked_normal ..⟩
    have read : Option.Rel (List.Forall₂ (Blanked slot.within))
        ((Decoder.list Source.toValue).reading origin (.list (items.map id)))
        ((Decoder.list Source.toValue).reading origin
          (.list (items.map (blanked slot.within)))) :=
      Decoder.list_alike entered entered fun value _ => item value
    rw [List.map_id] at read
    rwa [blanked, blanked_items]
  | object members => exact .none

omit [Scalar S] in
/-- Effects are read alike with their contents and without. -/
theorem blanked_twinning : Document.Effect.Twinning (Blanked .property) where
  normal := by
    rintro value _ ⟨normal, rfl⟩
    exact ⟨normal, by rw [blanked_normal, normal]⟩
  atom := by
    rintro atom _ ⟨-, rfl⟩
    rfl
  list := by
    rintro items _ ⟨normal, rfl⟩
    refine ⟨blanked .property, by rw [blanked, blanked_items]; rfl, fun item among => ?_⟩
    exact ⟨(Value.normal_list_iff items).mp normal item among, rfl⟩
  object := by
    rintro members _ ⟨normal, rfl⟩
    have parts := ((Value.normal_object_iff members).mp normal).2
    refine ⟨fun _ => true, blankedMember .property, by simp [blanked, blanked_members],
      fun member among isNamed => ⟨rfl, parts member among, ?_⟩⟩
    have noContent : Slot.holds .property member.1 = false := by
      have other : member.1 ≠ contentMember := by
        intro same
        simp [same, Document.Effect.fieldNames, contentMember] at isNamed
      simpa [Slot.holds] using other
    rw [blankedMember, if_neg (by simp [noContent])]
    rfl

/-- A layer but for what contents stand in: its transform, its effects and its shapes. -/
def outside (layer : Document.Layer S) : Document.Layer S :=
  { layer with transform := {}, effects := [], shapes := [] }

/-- Two layers that are the same but for contents. -/
structure SameLayer (first second : Document.Layer S) : Prop where
  outside : outside first = outside second
  transform : SameForms first.transform second.transform
  effects : List.Forall₂ (Blanked .property) first.effects second.effects
  shapes : List.Forall₂ (Blanked .shape) first.shapes second.shapes

/-- So do those of a layer. -/
theorem layer_fields_overlook :
    ∀ field ∈ Document.Layer.fields (S := S), FieldOverlooks .layer SameLayer field := by
  have plain {α : Type} {name : String} {decode : Decoder α}
      {put : α → Document.Layer S → Document.Layer S}
      (overlooks : Overlooks (Slot.under .layer name) (· = ·) decode)
      (outer : ∀ read layer, outside (put read layer) = put read (outside layer))
      (kept : ∀ read layer, (put read layer).transform = layer.transform ∧
        (put read layer).effects = layer.effects ∧ (put read layer).shapes = layer.shapes) :
      FieldOverlooks .layer SameLayer (.of name decode put) := by
    refine .of rfl overlooks ?_
    rintro read _ rfl first second same
    obtain ⟨transform, effects, shapes⟩ := kept read first
    obtain ⟨otherTransform, otherEffects, otherShapes⟩ := kept read second
    refine ⟨by rw [outer, outer, same.outside], ?_, ?_, ?_⟩
    · rw [transform, otherTransform]
      exact same.transform
    · rw [effects, otherEffects]
      exact same.effects
    · rw [shapes, otherShapes]
      exact same.shapes
  simp only [Document.Layer.fields, List.forall_mem_cons]
  refine ⟨?_, ?_, ?_, ?_, ?_, ?_, ?_, ?_, ?_, ?_, ?_, ?_, ?_, ?_, ?_, by simp⟩
  case refine_10 => exact plain .switch (fun _ _ => rfl) fun _ _ => ⟨rfl, rfl, rfl⟩
  case refine_12 =>
    exact .of rfl .transform fun _ _ transform _ _ same =>
      ⟨same.outside, transform, same.effects, same.shapes⟩
  case refine_14 =>
    exact .of rfl (.whole _) fun _ _ effects _ _ same =>
      ⟨same.outside, same.transform, effects, same.shapes⟩
  case refine_15 =>
    exact .of rfl (.whole _) fun _ _ shapes _ _ same =>
      ⟨same.outside, same.transform, same.effects, shapes⟩
  all_goals
    refine plain (.plain ?_) (fun _ _ => rfl) fun _ _ => ⟨rfl, rfl, rfl⟩
  all_goals
    first
    | exact .code
    | exact .scalar
    | exact .optional .index
    | exact .optional .text

/-- A layer is read from an object whatever contents there are in it, or it is not. -/
theorem layer_overlooked (members : List (String × Value)) :
    Option.Rel (SameLayer (S := S)) (read? Document.Layer.decode (.object members))
      (read? Document.Layer.decode (.object (blankedMembers .layer members))) := by
  rw [read_standing, read_standing]
  exact members_overlooked rfl "Layer" ⟨rfl, rfl, .nil, .nil⟩ layer_fields_overlook members

end

end VectorMotion.Scene.Expression
