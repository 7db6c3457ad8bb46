import VectorMotion.Proofs.Json.Numbers

/-!
# Sound fragments

A fragment of a document is kept as a value and read again, as a whole or in parts. If all its
numbers are numbers, so are those of everything that is read from it, whichever decoders it goes
through: what a decoder keeps of sound sources is told once for each way to put decoders together.
-/

namespace VectorMotion

open Json

namespace Json

/-- A value whose numbers are all numbers. -/
inductive Value.Sound : Value → Prop where
  | atom {value : Atom} (sound : value.Sound) : Sound (.atom value)
  | list {items : List Value} (each : ∀ item ∈ items, Sound item) : Sound (.list items)
  | object {members : List (String × Value)} (each : ∀ member ∈ members, Sound member.2) :
      Sound (.object members)

namespace Value

/-- An atom is sound as a value if it is so by itself. -/
@[simp]
theorem sound_atom (atom : Atom) : Value.Sound (.atom atom) ↔ atom.Sound :=
  ⟨fun | .atom sound => sound, .atom⟩

/-- A list is sound if all its items are. -/
@[simp]
theorem sound_list (items : List Value) : Value.Sound (.list items) ↔ ∀ item ∈ items, item.Sound :=
  ⟨fun | .list each => each, .list⟩

/-- An object is sound if the values of all its members are. -/
@[simp]
theorem sound_object (members : List (String × Value)) :
    Value.Sound (.object members) ↔ ∀ member ∈ members, member.2.Sound :=
  ⟨fun | .object each => each, .object⟩

end Value

/-- What has been read from all items has been read from each. -/
theorem Decoded.of_all {α β : Type} {decode : α → Decoded β} {items : List α} {values : List β}
    (read : items.mapM decode = .ok values) :
    ∀ value ∈ values, ∃ item ∈ items, decode item = .ok value := by
  induction items generalizing values with
  | nil =>
    obtain rfl := Except.ok.inj read
    simp
  | cons item rest inductionHypothesis =>
    rw [List.mapM_cons] at read
    obtain ⟨value, itemRead, read⟩ := Decoded.of_bind read
    obtain ⟨behind, restRead, read⟩ := Decoded.of_bind read
    obtain rfl := Except.ok.inj read
    refine List.forall_mem_cons.mpr ⟨⟨item, List.mem_cons_self, itemRead⟩, fun value among => ?_⟩
    obtain ⟨item, inside, itemRead⟩ := inductionHypothesis restRead value among
    exact ⟨item, List.mem_cons_of_mem _ inside, itemRead⟩

namespace Source

/-- The items of a list become sources one by one. -/
theorem of_items_map (items : List Value) : ofItems items = items.map ofValue := by
  induction items with
  | nil => rfl
  | cons item rest inductionHypothesis => rw [ofItems, inductionHypothesis, List.map_cons]

/-- The members of an object become sources one by one, under their names. -/
theorem of_members_map (members : List (String × Value)) :
    ofMembers members = members.map fun member => (some member.1, ofValue member.2) := by
  induction members with
  | nil => rfl
  | cons member rest inductionHypothesis => rw [ofMembers, inductionHypothesis, List.map_cons]

/-- A sound value is a sound source. -/
theorem of_value_sound {value : Value} (sound : value.Sound) : (ofValue value).Sound := by
  induction sound with
  | atom sound => exact .atom _ sound
  | list _ inductionHypothesis =>
    rw [ofValue, of_items_map]
    exact .list _ _ _ (List.forall_mem_map.mpr inductionHypothesis)
  | object _ inductionHypothesis =>
    rw [ofValue, of_members_map]
    exact .object _ _ _ (List.forall_mem_map.mpr inductionHypothesis)

/-- Whole items are the items as whole values. -/
theorem to_items_map (items : List Source) : toItems items = items.mapM toValue := by
  induction items with
  | nil => rfl
  | cons item rest inductionHypothesis => rw [toItems, inductionHypothesis, List.mapM_cons]

/-- Whole members are those that stand there. -/
theorem of_to_members {members : List (Option String × Source)} {values : List (String × Value)}
    (read : toMembers members = .ok values) :
    ∀ entry ∈ values, ∃ member ∈ members, member.2.toValue = .ok entry.2 := by
  induction members generalizing values with
  | nil =>
    obtain rfl := Except.ok.inj read
    simp
  | cons member rest inductionHypothesis =>
    rw [toMembers] at read
    obtain ⟨name, -, read⟩ := Decoded.of_bind read
    obtain ⟨value, memberRead, read⟩ := Decoded.of_bind read
    obtain ⟨behind, restRead, read⟩ := Decoded.of_bind read
    obtain rfl := Except.ok.inj read
    refine List.forall_mem_cons.mpr
      ⟨⟨member, List.mem_cons_self, memberRead⟩, fun entry among => ?_⟩
    obtain ⟨member, inside, memberRead⟩ := inductionHypothesis restRead entry among
    exact ⟨member, List.mem_cons_of_mem _ inside, memberRead⟩

/-- What is taken as a whole from a sound source is sound. -/
theorem whole_sound {source : Source} (sound : source.Sound) {value : Value}
    (read : source.toValue = .ok value) : value.Sound := by
  induction sound generalizing value with
  | atom atom sound =>
    obtain rfl := Except.ok.inj read
    exact .atom sound
  | unreadable => cases read
  | broken flaw => cases read
  | list origin items flaw _ inductionHypothesis =>
    rw [toValue] at read
    obtain ⟨_, -, read⟩ := Decoded.of_bind read
    obtain ⟨values, itemsRead, read⟩ := Decoded.of_bind read
    obtain ⟨_, -, read⟩ := Decoded.of_bind read
    obtain rfl := Except.ok.inj read
    refine .list fun value among => ?_
    rw [to_items_map] at itemsRead
    obtain ⟨item, inside, itemRead⟩ := Decoded.of_all itemsRead value among
    exact inductionHypothesis item inside itemRead
  | object origin members flaw _ inductionHypothesis =>
    rw [toValue] at read
    obtain ⟨_, -, read⟩ := Decoded.of_bind read
    obtain ⟨values, membersRead, read⟩ := Decoded.of_bind read
    obtain ⟨_, -, read⟩ := Decoded.of_bind read
    obtain rfl := Except.ok.inj read
    obtain ⟨ordered, made, -, entries⟩ := Value.of_members_ascending values
    rw [made]
    refine .object fun entry among => ?_
    obtain ⟨member, inside, memberRead⟩ := of_to_members membersRead entry (entries entry among)
    exact inductionHypothesis member inside memberRead

end Source

/-! ## Decoders -/

namespace Decoder

variable {α : Type} {kept : α → Prop} {decode : Decoder α}

/-- A decoder that reads nothing without a property from sound sources. -/
def Keeps (kept : α → Prop) (decode : Decoder α) : Prop :=
  ∀ source : Source, source.Sound → ∀ value, decode source = .ok value → kept value

/-- A value that is read as a whole from a sound source is sound. -/
theorem Keeps.whole : Keeps Value.Sound Source.toValue := fun _ sound _ read =>
  Source.whole_sound sound read

/-- What is read from a sound value keeps what the decoder keeps. -/
theorem Keeps.value (keeps : Keeps kept decode) {value : Value} (sound : value.Sound) {result : α}
    (read : decode.ofValue value = .ok result) : kept result :=
  keeps _ (Source.of_value_sound sound) result read

/-- A decoder of a list keeps of every item what the decoder of items keeps. -/
theorem Keeps.sequence (expected : String) (keeps : Keeps kept decode) :
    Keeps (fun values => ∀ value ∈ values, kept value) (Decoder.sequence expected decode) := by
  intro source sound values read
  cases sound with
  | list origin items flaw each =>
    obtain ⟨-, -, read⟩ := Decoded.of_bind read
    obtain ⟨found, itemsRead, read⟩ := Decoded.of_bind read
    obtain ⟨-, -, read⟩ := Decoded.of_bind read
    obtain rfl := Except.ok.inj read
    intro value among
    obtain ⟨item, inside, itemRead⟩ := Decoded.of_all itemsRead value among
    exact keeps item (each item inside) value itemRead
  | _ => cases read

/-- What is made of the results has a property if they have one that suffices. -/
theorem Keeps.map {β : Type} {fit : β → Prop} (keeps : Keeps kept decode) {change : α → β}
    (enough : ∀ value, kept value → fit (change value)) :
    Keeps fit fun source => change <$> decode source := by
  intro source sound result read
  dsimp only at read
  cases found : decode source with
  | ok value =>
    rw [found] at read
    obtain rfl := Except.ok.inj read
    exact enough value (keeps source sound value found)
  | error misfit =>
    rw [found] at read
    cases read

/-- Values that are read as wholes from a sound source are sound. -/
theorem Keeps.wholes : Keeps (fun values => ∀ value ∈ values, value.Sound)
    (Decoder.list Source.toValue) :=
  Keeps.whole.sequence _

/-- A decoder of something that may be left out keeps what the decoder of it keeps, if it is there.
-/
theorem Keeps.optional (keeps : Keeps kept decode) :
    Keeps (fun found => ∀ value ∈ found, kept value) (Decoder.optional decode) := by
  have present : Keeps (fun found => ∀ value ∈ found, kept value)
      fun source => some <$> decode source :=
    keeps.map fun value fit other same => Option.some.inj same ▸ fit
  intro source sound found read
  unfold Decoder.optional at read
  split at read
  · obtain rfl := Except.ok.inj read
    simp
  · split at read
    · cases read
    · exact present _ sound found read
  · exact present _ sound found read

end Decoder

namespace Record

/-- Records have a property that no field breaks, if they have it where everything is left out. -/
theorem keeps {R : Type} {kept : R → Prop} (name : String) {blank : R} (start : kept blank)
    {fields : List (Field R)} (each : ∀ field ∈ fields, field.Keeps kept) :
    (decode name blank fields).Keeps kept :=
  fun _ sound _ read => decoded_keeps name start each sound read

/-- A field keeps a property of records if what it puts into them has a property that suffices. -/
theorem Field.Keeps.put {R α : Type} {kept : R → Prop} {fit : α → Prop} {name : String}
    {decode : Decoder α} {put : α → R → R} (keeps : decode.Keeps fit)
    (enough : ∀ value, fit value → ∀ record, kept record → kept (put value record)) :
    (Field.of name decode put).Keeps kept :=
  .of fun source value sound read => enough value (keeps source sound value read)

end Record

end Json

/-- The layers of a document that is read from text are sound. -/
theorem Document.layers_sound {S : Type} [Scalar S] {text : String} {document : Document S}
    (read : decode.ofText text = .ok document) : ∀ layer ∈ document.layers, layer.Sound := by
  have each : ∀ field ∈ fields (S := S),
      field.Keeps fun document => ∀ layer ∈ document.layers, layer.Sound := by
    simp only [fields, List.forall_mem_cons]
    refine ⟨.of ?_, .of ?_, .must ?_, .must ?_, .must ?_, .must ?_, .must ?_,
      .put Decoder.Keeps.wholes fun _ fit _ _ => fit, .of ?_, by simp⟩
    all_goals exact fun _ _ _ _ _ kept => kept
  exact text_keeps (by simp) each read

end VectorMotion
