import Mathlib.Data.List.Forall2
import Mathlib.Data.List.Nodup
import VectorMotion.Proofs.Json.Members

/-!
# What a record is read from

A record is read step by step, and the first misfit ends it. What comes of it can be told without
the steps. From an object, the fields are met that its members are named for, each with what stands
there; nothing comes of it if a field is met twice, or if one is not met that the record cannot do
without. From a list, the fields are met in their order. Either way the record holds what the fields
read where they are met, and nothing comes of it if one of them reads nothing.

This holds of a value that is read again for the first time and of one that has been set aside. So
two readings of a record can be compared by what their fields are met with.
-/

namespace VectorMotion.Json

namespace Decoded

/-- Forgetting why a reading has failed can be done step by step. -/
theorem to_option_bind {α β : Type} (first : Decoded α) (go : α → Decoded β) :
    (first >>= go).toOption = first.toOption.bind fun value => (go value).toOption := by
  cases first <;> rfl

/-- So it can where a result is changed. -/
theorem to_option_map {α β : Type} (first : Decoded α) (change : α → β) :
    (change <$> first).toOption = first.toOption.map change := by
  cases first <;> rfl

end Decoded

section

variable {α β γ δ : Type}

/-- Two computations in two steps are alike if their first steps are, and their second steps from
results that are alike. -/
theorem rel_bind {alike : α → β → Prop} {after : γ → δ → Prop} {first : Option α}
    {second : Option β} {go : α → Option γ} {next : β → Option δ}
    (results : Option.Rel alike first second)
    (each : ∀ a b, alike a b → Option.Rel after (go a) (next b)) :
    Option.Rel after (first.bind go) (second.bind next) := by
  cases results with
  | some related => exact each _ _ related
  | none => exact .none

/-- Two related outcomes are both there, or neither is. -/
theorem rel_cases {alike : α → β → Prop} {first : Option α} {second : Option β}
    (results : Option.Rel alike first second) :
    first = none ∧ second = none ∨
      ∃ value other, first = some value ∧ second = some other ∧ alike value other := by
  cases results with
  | some related => exact .inr ⟨_, _, rfl, rfl, related⟩
  | none => exact .inl ⟨rfl, rfl⟩

/-- Results that are alike stay alike when both are changed in ways that go together. -/
theorem rel_map {alike : α → β → Prop} {after : γ → δ → Prop} {first : Option α}
    {second : Option β} {change : α → γ} {exchange : β → δ}
    (results : Option.Rel alike first second)
    (each : ∀ a b, alike a b → after (change a) (exchange b)) :
    Option.Rel after (first.map change) (second.map exchange) := by
  cases results with
  | some related => exact .some (each _ _ related)
  | none => exact .none

/-- Computations that are equal are related by equality. -/
theorem rel_of_eq {first second : Option α} (same : first = second) :
    Option.Rel (· = ·) first second := by
  subst same
  cases first with
  | none => exact .none
  | some value => exact .some rfl

/-- Computations that are related by equality are equal. -/
theorem eq_of_rel {first second : Option α} (related : Option.Rel (· = ·) first second) :
    first = second := by
  cases related with
  | some same => exact congrArg some same
  | none => rfl

end

namespace Decoder

variable {α β : Type}

/-- What is read from a value, as a source of the given origin. -/
def reading (origin : Origin) (decode : Decoder α) (value : Value) : Option α :=
  (decode (.standing origin value)).toOption

/-- A whole value is read as it stands. -/
theorem whole_reading {origin : Origin} (entered : origin.enter = .ok ()) {value : Value}
    (normal : value.normal = value) : reading origin Source.toValue value = some value := by
  rw [reading, Source.whole_standing entered, normal]
  rfl

/-- A decoder that reads nothing from lists and objects. -/
def Plain (decode : Decoder α) : Prop :=
  ∀ origin value, (∀ atom, value ≠ .atom atom) → decode.reading origin value = none

namespace Plain

/-- Natural numbers are read in the same way wherever they stand. -/
theorem natural (greatest : Nat) (expected : String) : Plain (Decoder.natural greatest expected) := by
  intro origin value noAtom
  cases value with
  | atom atom => exact absurd rfl (noAtom atom)
  | _ => rfl

/-- So are codes. -/
theorem code : Plain Decoder.code := natural 255 "u8"

/-- So are indices. -/
theorem index : Plain Decoder.index := natural 4294967295 "u32"

/-- So are scalars. -/
theorem scalar {S : Type} [Scalar S] : Plain (Decoder.scalar (S := S)) := by
  intro origin value noAtom
  cases value with
  | atom atom => exact absurd rfl (noAtom atom)
  | _ => rfl

/-- So are texts. -/
theorem text : Plain Decoder.text := by
  intro origin value noAtom
  cases value with
  | atom atom => exact absurd rfl (noAtom atom)
  | _ => rfl

/-- So are truth values. -/
theorem boolean : Plain Decoder.boolean := by
  intro origin value noAtom
  cases value with
  | atom atom => exact absurd rfl (noAtom atom)
  | _ => rfl

/-- What may be left out is read in the same way wherever it stands, if what is there is. -/
theorem optional {decode : Decoder α} (plain : Plain decode) : Plain (Decoder.optional decode) := by
  intro origin value noAtom
  have nothing := plain origin value noAtom
  rw [reading] at nothing ⊢
  cases value with
  | atom atom => exact absurd rfl (noAtom atom)
  | list items =>
    rw [Source.standing, Decoder.optional, Decoded.to_option_map]
    · rw [← Source.standing, nothing]
      rfl
    all_goals nofun
  | object members =>
    rw [Source.standing, Decoder.optional, Decoded.to_option_map]
    · rw [← Source.standing, nothing]
      rfl
    all_goals nofun

/-- What it reads does not depend on where the value comes from. -/
theorem anywhere {decode : Decoder α} (plain : Plain decode) (origin other : Origin)
    (value : Value) : decode.reading origin value = decode.reading other value := by
  cases value with
  | atom atom => rfl
  | list items => rw [plain origin _ (by simp), plain other _ (by simp)]
  | object members => rw [plain origin _ (by simp), plain other _ (by simp)]

end Plain

end Decoder

/-- What stands directly within a value. -/
def Value.parts : Value → List Value
  | .atom _ => []
  | .list items => items
  | .object members => members.map Prod.snd

namespace Record

variable {R : Type}

/-- The fields that are met in some members, each with the member that it is met in. -/
def met (fields : List (Field R)) (members : List (String × Value)) :
    List (Field R × String × Value) :=
  members.filterMap fun member => (fields.find? (·.goesBy member.1)).map (·, member)

/-- The fields that are met in some items, each with its own name and the item. -/
def inOrder (fields : List (Field R)) (items : List Value) : List (Field R × String × Value) :=
  (fields.zip items).map fun entry => (entry.1, entry.1.name, entry.2)

/-- A record with everything that fields read where they are met. -/
def run (origin : Origin) : List (Field R × String × Value) → R → Option R
  | [], record => some record
  | (field, _, value) :: rest, record =>
    (Decoder.reading origin field.read value).bind fun put => run origin rest (put record)

/-- The names of the fields that are met. -/
def names (entries : List (Field R × String × Value)) : List String := entries.map (·.1.name)

/-- No field is met twice, and all are met that the record cannot do without. -/
def Complete (fields : List (Field R)) (entries : List (Field R × String × Value)) : Prop :=
  (names entries).Nodup ∧ ∀ field ∈ fields, field.required = true → field.name ∈ names entries

instance (fields : List (Field R)) (entries : List (Field R × String × Value)) :
    Decidable (Complete fields entries) :=
  inferInstanceAs (Decidable (_ ∧ _))

/-- The first member meets the first field that goes by its name, if there is one. -/
theorem met_cons (fields : List (Field R)) (name : String) (value : Value)
    (rest : List (String × Value)) : met fields ((name, value) :: rest) =
      match fields.find? (·.goesBy name) with
      | none => met fields rest
      | some field => (field, name, value) :: met fields rest := by
  rw [met, List.filterMap_cons]
  cases fields.find? (·.goesBy name) <;> rfl

/-- Something holds of all that fields meet if it holds of every member and the first field that
goes by its name. -/
theorem forall_met (fields : List (Field R)) (members : List (String × Value))
    (holds : Field R × String × Value → Prop) : (∀ entry ∈ met fields members, holds entry) ↔
      ∀ member ∈ members, ∀ field, fields.find? (·.goesBy member.1) = some field →
        holds (field, member) := by
  constructor
  · intro each member among field found
    exact each _ (List.mem_filterMap.mpr ⟨member, among, by rw [found]; rfl⟩)
  · intro each entry listed
    obtain ⟨member, among, found⟩ := List.mem_filterMap.mp listed
    obtain ⟨field, isField, rfl⟩ := Option.map_eq_some_iff.mp found
    exact each member among field isField

/-- Changing what stands under the names changes what the fields are met with. -/
theorem met_map (fields : List (Field R)) (members : List (String × Value))
    (change : String × Value → Value) :
    met fields (members.map fun member => (member.1, change member)) =
      (met fields members).map fun entry => (entry.1, entry.2.1, change entry.2) := by
  rw [met, met, List.filterMap_map, List.map_filterMap]
  refine List.filterMap_congr fun member _ => ?_
  simp only [Function.comp_apply, Option.map_map]
  rfl

/-- Members that no field is named for can be left out. -/
theorem met_filter (fields : List (Field R)) (members : List (String × Value))
    (keep : String × Value → Bool)
    (unread : ∀ member ∈ members, keep member = false → fields.any (·.goesBy member.1) = false) :
    met fields (members.filter keep) = met fields members := by
  rw [met, met, List.filterMap_filter]
  refine List.filterMap_congr fun member among => ?_
  split
  · rfl
  · next dropped =>
    have nobody : fields.find? (·.goesBy member.1) = none := by
      simpa using unread member among (by simpa using dropped)
    rw [nobody]
    rfl

/-! ## Objects and lists -/

variable {origin : Origin}

/-- The members of an object, those that have been read before it among the `seen`. -/
theorem read_members_run (fields : List (Field R)) (members : List (String × Value))
    (seen : List String) (record : R) :
    (readMembers fields seen (Source.standingMembers origin members) record).toOption =
      if (names (met fields members)).Nodup ∧ ∀ name ∈ names (met fields members), name ∉ seen then
        (run origin (met fields members) record).map
          ((names (met fields members)).reverse ++ seen, ·)
      else none := by
  induction members generalizing seen record with
  | nil => rfl
  | cons member rest inductionHypothesis =>
    obtain ⟨name, value⟩ := member
    rw [Source.standingMembers, readMembers, met_cons, nameOf]
    simp only [Bind.bind, Except.bind]
    cases found : fields.find? (·.goesBy name) with
    | none =>
      simp only [Source.skip_standing]
      exact inductionHypothesis seen record
    | some field =>
      simp only [names, List.map_cons, run]
      by_cases again : field.name ∈ seen
      · simp [again]
        rfl
      · have known : seen.contains field.name = false := by simpa using again
        simp only [known, Bool.false_eq_true, ↓reduceIte]
        cases reads : field.read (.standing origin value) with
        | error misfit =>
          have nothing : Decoder.reading origin field.read value = none := by
            rw [Decoder.reading, reads]
            rfl
          simp [nothing, Except.toOption]
        | ok put =>
          have something : Decoder.reading origin field.read value = some put := by
            rw [Decoder.reading, reads]
            rfl
          have step := inductionHypothesis (field.name :: seen) (put record)
          simp only [names] at step
          simp only [step, something, Option.bind_some]
          have same : ((met fields rest).map (·.1.name)).Nodup ∧
                (∀ name ∈ (met fields rest).map (·.1.name), name ∉ field.name :: seen) ↔
              (field.name :: (met fields rest).map (·.1.name)).Nodup ∧
                ∀ name ∈ field.name :: (met fields rest).map (·.1.name), name ∉ seen := by
            simp only [List.nodup_cons, List.mem_cons, not_or, forall_eq_or_imp]
            grind
          simp only [same, List.reverse_cons, List.append_assoc, List.singleton_append]

/-- A record is complete if every field that must be there has been seen. -/
theorem require_all_run (fields : List (Field R)) (seen : List String) :
    (requireAll fields seen).toOption =
      if ∀ field ∈ fields, field.required = true → field.name ∈ seen then some () else none := by
  rw [requireAll]
  cases missing : fields.find? fun field => field.required && !seen.contains field.name with
  | none =>
    have all : ∀ field ∈ fields, field.required = true → field.name ∈ seen := by
      simpa using missing
    rw [if_pos all]
    rfl
  | some field =>
    have member := List.mem_of_find?_eq_some missing
    have absent : field.required = true ∧ field.name ∉ seen := by
      simpa using List.find?_some missing
    rw [if_neg fun all => absent.2 (all field member absent.1)]
    rfl

/-- A record is read from an object by what its fields are met with. -/
theorem decode_object (entered : origin.enter = .ok ()) (name : String) (blank : R)
    (fields : List (Field R)) (members : List (String × Value)) :
    (decode name blank fields).reading origin (.object members) =
      if Complete fields (met fields members) then run origin (met fields members) blank
      else none := by
  rw [Decoder.reading, Source.standing, decode, entered]
  simp only [Decoded.to_option_bind, read_members_run, leave, require_all_run, Complete]
  by_cases once : (names (met fields members)).Nodup
  · cases run origin (met fields members) blank with
    | none => simp [once, Except.toOption]
    | some record =>
      simp only [once, true_and, List.not_mem_nil, not_false_eq_true, implies_true, and_self,
        ↓reduceIte, Option.map_some, Except.toOption, Option.bind_some, List.append_nil,
        List.mem_reverse, Pure.pure, Except.pure]
      split <;> rfl
  · simp [once, Except.toOption]

/-- The items of a list. Those behind the last field are left over. -/
theorem read_items_run (expected : String) (fields : List (Field R)) (items : List Value)
    (index : Nat) (record : R) :
    (readItems expected none index fields (Source.standingItems origin items) record).toOption =
      if ∀ field ∈ fields.drop items.length, field.required = false then
        (run origin (inOrder fields items) record).map
          (Source.standingItems origin (items.drop fields.length), ·)
      else none := by
  induction fields generalizing items index record with
  | nil => simp [readItems, inOrder, run, Except.toOption]
  | cons field rest inductionHypothesis =>
    cases items with
    | nil =>
      have step := inductionHypothesis [] (index + 1) record
      rw [Source.standingItems] at step ⊢
      rw [readItems, Decoded.to_option_bind]
      cases required : field.required with
      | true => simp [required, leave, Except.toOption]
      | false => simp_all [leave, Except.toOption, inOrder]
    | cons item others =>
      rw [Source.standingItems, readItems, Decoded.to_option_bind]
      simp only [inductionHypothesis, inOrder, List.zip_cons_cons, List.map_cons, run,
        List.length_cons, List.drop_succ_cons]
      rw [← Decoder.reading]
      cases Decoder.reading origin field.read item with
      | none => simp
      | some put => rfl

/-- A record is read from a list by what its fields are met with. -/
theorem decode_list (entered : origin.enter = .ok ()) (name : String) (blank : R)
    (fields : List (Field R)) (items : List Value) :
    (decode name blank fields).reading origin (.list items) =
      if items.length ≤ fields.length ∧ ∀ field ∈ fields.drop items.length, field.required = false
      then run origin (inOrder fields items) blank else none := by
  have behind : (Source.standingItems origin (items.drop fields.length)).isEmpty = true ↔
      items.length ≤ fields.length := by
    rw [← List.drop_eq_nil_iff]
    cases items.drop fields.length <;> simp [Source.standingItems]
  rw [Decoder.reading, Source.standing, decode, entered]
  simp only [Decoded.to_option_bind, read_items_run]
  by_cases required : ∀ field ∈ fields.drop items.length, field.required = false
  · rw [if_pos required, Except.toOption, Option.bind_some]
    by_cases short : items.length ≤ fields.length
    · rw [if_pos ⟨short, required⟩]
      cases run origin (inOrder fields items) blank with
      | none => rfl
      | some record =>
        simp only [Option.map_some, Option.bind_some, behind.mpr short, ↓reduceIte]
        rfl
    · rw [if_neg fun both => short both.1]
      cases run origin (inOrder fields items) blank with
      | none => rfl
      | some record =>
        simp only [Option.map_some, Option.bind_some, behind.not.mpr short, Bool.false_eq_true,
          ↓reduceIte]
        rfl
  · rw [if_neg required, if_neg fun both => required both.2]
    rfl

/-- Nothing comes of a list whose first item the first field does not read. -/
theorem first_unread (entered : origin.enter = .ok ()) (name : String) (blank : R)
    (field : Field R) (fields : List (Field R)) (item : Value) (rest : List Value)
    (unread : Decoder.reading origin field.read item = none) :
    (decode name blank (field :: fields)).reading origin (.list (item :: rest)) = none := by
  rw [decode_list entered, inOrder, List.zip_cons_cons, List.map_cons, run, unread]
  exact ite_self _

/-! ## Comparing readings -/

/-- Something comes of reading if every field that is met reads something. -/
theorem run_some (entries : List (Field R × String × Value)) (record : R) :
    (run origin entries record).isSome = true ↔
      ∀ entry ∈ entries, (Decoder.reading origin entry.1.read entry.2.2).isSome = true := by
  induction entries generalizing record with
  | nil => simp [run]
  | cons entry rest inductionHypothesis =>
    obtain ⟨field, name, value⟩ := entry
    rw [run, List.forall_mem_cons]
    cases Decoder.reading origin field.read value with
    | none => simp
    | some put => simp [inductionHypothesis]

/-- Two ways of changing records under which records that are alike stay alike. -/
def Moves (alike : R → R → Prop) (first second : R → R) : Prop :=
  ∀ record other, alike record other → alike (first record) (second other)

/-- Two fields that go by the same names. -/
structure Namesakes (field other : Field R) : Prop where
  name : field.name = other.name
  aliases : field.aliases = other.aliases
  required : field.required = other.required

/-- Two entries that are met at the same place, where what they read keeps records alike. -/
structure Akin (alike : R → R → Prop) (origin other : Origin)
    (first second : Field R × String × Value) : Prop where
  name : first.1.name = second.1.name
  reads : Option.Rel (Moves alike) (Decoder.reading origin first.1.read first.2.2)
    (Decoder.reading other second.1.read second.2.2)

section

variable {alike : R → R → Prop} {other : Origin}

/-- Members that fields read alike make records that are alike. -/
theorem run_alike {entries others : List (Field R × String × Value)}
    (akin : List.Forall₂ (Akin alike origin other) entries others) {first second : R}
    (start : alike first second) :
    Option.Rel alike (run origin entries first) (run other others second) := by
  induction akin generalizing first second with
  | nil => exact .some start
  | cons each _ inductionHypothesis =>
    exact rel_bind each.reads fun _ _ moves => inductionHypothesis (moves _ _ start)

/-- Fields that are akin have been seen under the same names. -/
theorem names_akin {entries others : List (Field R × String × Value)}
    (akin : List.Forall₂ (Akin alike origin other) entries others) :
    names entries = names others := by
  induction akin with
  | nil => rfl
  | cons each _ inductionHypothesis => exact congrArg₂ List.cons each.name inductionHypothesis

/-- What is required does not tell namesakes apart. -/
theorem required_namesakes {fields others : List (Field R)}
    (pairs : List.Forall₂ Namesakes fields others) (known : String → Prop) :
    (∀ field ∈ fields, field.required = true → known field.name) ↔
      ∀ field ∈ others, field.required = true → known field.name := by
  induction pairs with
  | nil => simp
  | cons pair _ inductionHypothesis =>
    rw [List.forall_mem_cons, List.forall_mem_cons, pair.name, pair.required, inductionHypothesis]

/-- Lists of namesakes find namesakes under a name. -/
theorem find_namesakes {related : Field R → Field R → Prop} {fields others : List (Field R)}
    (pairs : List.Forall₂ (fun field other => Namesakes field other ∧ related field other)
      fields others) (name : String) :
    Option.Rel (fun field other => field.goesBy name ∧ Namesakes field other ∧ related field other)
      (fields.find? (·.goesBy name)) (others.find? (·.goesBy name)) := by
  induction pairs with
  | nil => exact .none
  | @cons field other _ _ pair _ inductionHypothesis =>
    have same : other.goesBy name = field.goesBy name := by
      rw [Field.goesBy, Field.goesBy, pair.1.name, pair.1.aliases]
    rw [List.find?_cons, List.find?_cons, same]
    cases goes : field.goesBy name with
    | true => exact .some ⟨goes, pair⟩
    | false => exact inductionHypothesis

/-- Two objects are read alike if they have the same members, but for some that no field goes by,
and if namesakes read alike what stands under these. -/
theorem decode_objects_alike (entered : origin.enter = .ok ()) (otherEntered : other.enter = .ok ())
    (name : String) {blank : R} (start : alike blank blank) {fields others : List (Field R)}
    (members : List (String × Value)) (keep : String × Value → Bool)
    (unread : ∀ member ∈ members, keep member = false → others.any (·.goesBy member.1) = false)
    (first second : String × Value → Value)
    (pairs : List.Forall₂ (fun field other' => Namesakes field other' ∧
      ∀ member ∈ members, field.goesBy member.1 → Option.Rel (Moves alike)
        (Decoder.reading origin field.read (first member))
        (Decoder.reading other other'.read (second member))) fields others) :
    Option.Rel alike
      ((decode name blank fields).reading origin
        (.object (members.map fun member => (member.1, first member))))
      ((decode name blank others).reading other
        (.object ((members.filter keep).map fun member => (member.1, second member)))) := by
  have akin : List.Forall₂ (Akin alike origin other)
      ((met fields members).map fun entry => (entry.1, entry.2.1, first entry.2))
      ((met others members).map fun entry => (entry.1, entry.2.1, second entry.2)) := by
    rw [List.forall₂_map_left_iff, List.forall₂_map_right_iff]
    have all : List.Forall₂ (fun member counterpart : String × Value =>
        member = counterpart ∧ member ∈ members) members members :=
      List.forall₂_same.mpr fun member among => ⟨rfl, among⟩
    refine List.rel_filterMap (fun member _ ⟨same, among⟩ => ?_) all
    subst same
    have found := find_namesakes pairs member.1
    revert found
    generalize fields.find? (·.goesBy member.1) = field
    generalize others.find? (·.goesBy member.1) = counterpart
    rintro (⟨goes, pair, reads⟩ | _)
    · exact .some ⟨pair.name, reads member among goes⟩
    · exact .none
  rw [decode_object entered, decode_object otherEntered, met_map, met_map,
    met_filter others members keep unread]
  have same : Complete fields ((met fields members).map fun entry =>
        (entry.1, entry.2.1, first entry.2)) ↔
      Complete others ((met others members).map fun entry =>
        (entry.1, entry.2.1, second entry.2)) := by
    rw [Complete, Complete, names_akin akin]
    exact and_congr_right fun _ => required_namesakes (pairs.imp fun _ _ pair => pair.1) _
  by_cases complete : Complete fields ((met fields members).map fun entry =>
      (entry.1, entry.2.1, first entry.2))
  · rw [if_pos complete, if_pos (same.mp complete)]
    exact run_alike akin start
  · rw [if_neg complete, if_neg (same.not.mp complete)]
    exact .none

/-- Two lists are read alike if namesakes read alike whatever item is met. -/
theorem decode_lists_alike (entered : origin.enter = .ok ()) (otherEntered : other.enter = .ok ())
    (name : String) {blank : R} (start : alike blank blank) {fields others : List (Field R)}
    (items : List Value) (first second : Value → Value)
    (pairs : List.Forall₂ (fun field other' => Namesakes field other' ∧
      ∀ item ∈ items, Option.Rel (Moves alike)
        (Decoder.reading origin field.read (first item))
        (Decoder.reading other other'.read (second item))) fields others) :
    Option.Rel alike
      ((decode name blank fields).reading origin (.list (items.map first)))
      ((decode name blank others).reading other (.list (items.map second))) := by
  have akin : List.Forall₂ (Akin alike origin other) (inOrder fields (items.map first))
      (inOrder others (items.map second)) := by
    induction items generalizing fields others with
    | nil => simp [inOrder]
    | cons item rest inductionHypothesis =>
      cases pairs with
      | nil => simp [inOrder]
      | cons pair behind =>
        refine .cons ⟨pair.1.name, pair.2 item List.mem_cons_self⟩ (inductionHypothesis ?_)
        exact behind.imp fun _ _ next =>
          ⟨next.1, fun item among => next.2 item (List.mem_cons_of_mem _ among)⟩
  have behind := List.forall₂_drop items.length (pairs.imp fun _ _ pair => pair.1)
  have required : (∀ field ∈ fields.drop items.length, field.required = false) ↔
      ∀ field ∈ others.drop items.length, field.required = false := by
    have same := required_namesakes behind fun _ => False
    simpa using same
  rw [decode_list entered, decode_list otherEntered]
  simp only [List.length_map, pairs.length_eq, required]
  split
  · exact run_alike akin start
  · exact .none

end

/-- What is read from a value depends on the fields only by what these read from its parts. -/
theorem decode_congr (entered : origin.enter = .ok ()) (name : String) (blank : R)
    {fields others : List (Field R)} (value : Value)
    (pairs : List.Forall₂ (fun field other => Namesakes field other ∧ ∀ part ∈ value.parts,
      Decoder.reading origin field.read part = Decoder.reading origin other.read part)
      fields others) :
    (decode name blank fields).reading origin value =
      (decode name blank others).reading origin value := by
  have moves {first second : Option (R → R)} (same : first = second) :
      Option.Rel (Moves (· = ·)) first second := by
    subst same
    cases first with
    | none => exact .none
    | some change => exact .some fun _ _ => congrArg change
  cases value with
  | atom atom => rfl
  | list items =>
    have read := decode_lists_alike entered entered name (rfl : blank = blank) items id id
      (pairs.imp fun _ _ pair => ⟨pair.1, fun item among => moves (pair.2 item among)⟩)
    rw [List.map_id] at read
    exact eq_of_rel read
  | object members =>
    have read := decode_objects_alike entered entered name (rfl : blank = blank) members
      (fun _ => true) (by simp) Prod.snd Prod.snd
      (pairs.imp fun _ _ pair => ⟨pair.1, fun member among _ =>
        moves (pair.2 member.2 (List.mem_map_of_mem among))⟩)
    rw [List.filter_true] at read
    simpa using eq_of_rel read

/-- A field reads what its decoder reads. -/
theorem Field.of_reading {α : Type} (origin : Origin) (name : String) (decode : Decoder α)
    (put : α → R → R) (value : Value) :
    Decoder.reading origin (Field.of name decode put).read value =
      (decode.reading origin value).map put :=
  Decoded.to_option_map ..

/-- A field with a default may be left out. -/
@[simp] theorem Field.of_required {α : Type} (name : String) (decode : Decoder α)
    (put : α → R → R) : (Field.of name decode put).required = false := rfl

/-- So does a field that must be present. -/
theorem Field.must_reading {α : Type} (origin : Origin) (name : String) (decode : Decoder α)
    (put : α → R → R) (value : Value) :
    Decoder.reading origin (Field.must name decode put).read value =
      (decode.reading origin value).map put :=
  Decoded.to_option_map ..

section

variable {fields : List (Field R)} (alone : ∀ field ∈ fields, field.aliases = [])
include alone

/-- A field without other names goes by its own. -/
theorem goes_alone {field : Field R} (isField : field ∈ fields) (name : String) :
    field.goesBy name = true ↔ field.name = name := by
  simp [Field.goesBy, alone field isField]

/-- The names under which fields are met are names of members. -/
theorem names_met (members : List (String × Value)) :
    (names (met fields members)).Sublist (members.map Prod.fst) := by
  induction members with
  | nil => exact .slnil
  | cons member rest inductionHypothesis =>
    rw [met_cons]
    cases found : fields.find? (·.goesBy member.1) with
    | none => exact inductionHypothesis.cons _
    | some field =>
      have goes := List.find?_some found
      have own := (goes_alone alone (List.mem_of_find?_eq_some found) member.1).mp goes
      rw [names, List.map_cons, List.map_cons, own]
      exact inductionHypothesis.cons_cons _

/-- Something comes of an object whose members have distinct names if all is there that must be,
and if every field reads what stands under its name. -/
theorem object_some_iff (entered : origin.enter = .ok ()) (name : String) (blank : R)
    (distinct : (fields.map (·.name)).Nodup) {members : List (String × Value)}
    (once : (members.map Prod.fst).Nodup) :
    ((decode name blank fields).reading origin (.object members)).isSome = true ↔
      (∀ field ∈ fields, field.required = true → field.name ∈ members.map Prod.fst) ∧
        ∀ member ∈ members, ∀ field ∈ fields, field.name = member.1 →
          (Decoder.reading origin field.read member.2).isSome = true := by
  have met_at {field : Field R} (isField : field ∈ fields) (called : String) :
      fields.find? (·.goesBy called) = some field ↔ field.name = called := by
    constructor
    · intro found
      have goes := List.find?_some found
      exact (goes_alone alone isField called).mp goes
    · rintro rfl
      cases found : fields.find? (·.goesBy field.name) with
      | none =>
        have goes := List.find?_eq_none.mp found field isField
        exact absurd ((goes_alone alone isField _).mpr rfl) goes
      | some other =>
        have isOther := List.mem_of_find?_eq_some found
        have goes := List.find?_some found
        have same := (goes_alone alone isOther _).mp goes
        exact congrArg some (List.inj_on_of_nodup_map distinct isOther isField same)
  have complete : Complete fields (met fields members) ↔
      ∀ field ∈ fields, field.required = true → field.name ∈ members.map Prod.fst := by
    rw [Complete, and_iff_right (once.sublist (names_met alone members))]
    refine forall₂_congr fun field isField => imp_congr_right fun _ => ?_
    refine ⟨fun known => (names_met alone members).subset known, fun known => ?_⟩
    obtain ⟨member, among, named⟩ := List.mem_map.mp known
    have listed : (field, member) ∈ met fields members :=
      List.mem_filterMap.mpr ⟨member, among, by rw [(met_at isField _).mpr named.symm]; rfl⟩
    exact List.mem_map_of_mem (f := fun entry : Field R × String × Value => entry.1.name) listed
  have reads : (∀ entry ∈ met fields members,
      (Decoder.reading origin entry.1.read entry.2.2).isSome = true) ↔
        ∀ member ∈ members, ∀ field ∈ fields, field.name = member.1 →
          (Decoder.reading origin field.read member.2).isSome = true := by
    rw [forall_met]
    refine forall₂_congr fun member _ => ⟨fun each field isField named => ?_, fun each field found => ?_⟩
    · exact each field ((met_at isField _).mpr named)
    · have isField := List.mem_of_find?_eq_some found
      exact each field isField ((met_at isField _).mp found)
  rw [decode_object entered]
  by_cases all : Complete fields (met fields members)
  · rw [if_pos all, run_some, reads, and_iff_right (complete.mp all)]
  · rw [if_neg all]
    exact iff_of_false nofun fun both => all (complete.mpr both.1)

end

/-! ## One field among others -/

section Around

variable {α : Type}

/-- A field leaves alone what something else puts into a record. -/
def Field.Spares (put : α → R → R) (field : Field R) : Prop :=
  ∀ source change, field.read source = .ok change →
    ∀ value record, change (put value record) = put value (change record)

/-- So does a field that changes another part of the record. -/
theorem Field.of_spares {β : Type} {put : α → R → R} (name : String) (other : Decoder β)
    {change : β → R → R}
    (apart : ∀ read value record, change read (put value record) = put value (change read record)) :
    (Field.of name other change).Spares put := by
  intro source _ reads value record
  obtain ⟨read, -, rfl⟩ := Field.of_reads reads
  exact apart read value record

/-- A record is made from all members by making it from the first of them and going on with the
others. -/
theorem run_append (entries others : List (Field R × String × Value)) (record : R) :
    run origin (entries ++ others) record =
      (run origin entries record).bind (run origin others) := by
  induction entries generalizing record with
  | nil => rfl
  | cons entry rest inductionHypothesis =>
    obtain ⟨field, name, value⟩ := entry
    simp only [List.cons_append, run, inductionHypothesis, Option.bind_assoc]

/-- What has been put into a record before other fields are read could as well be put in behind. -/
theorem run_spares {put : α → R → R} (entries : List (Field R × String × Value))
    (spares : ∀ entry ∈ entries, entry.1.Spares put) (value : α) (record : R) :
    run origin entries (put value record) = (run origin entries record).map (put value) := by
  induction entries generalizing record with
  | nil => rfl
  | cons entry rest inductionHypothesis =>
    obtain ⟨field, name, item⟩ := entry
    obtain ⟨first, behind⟩ := List.forall_mem_cons.mp spares
    rw [run, run]
    cases reads : field.read (.standing origin item) with
    | error misfit =>
      simp [Decoder.reading, reads, Except.toOption]
    | ok change =>
      simp only [Decoder.reading, reads, Except.toOption, Option.bind_some]
      rw [first _ _ reads, inductionHypothesis behind]

/-- So one field can be read last. -/
theorem run_around {decode : Decoder α} {put : α → R → R}
    (before behind : List (Field R × String × Value))
    (spares : ∀ entry ∈ behind, entry.1.Spares put) (name called : String) (value : Value)
    (record : R) :
    run origin (before ++ (Field.of name decode put, called, value) :: behind) record =
      (run origin (before ++ behind) record).bind fun made =>
        (decode.reading origin value).map (put · made) := by
  rw [run_append, run_append, Option.bind_assoc]
  refine Option.bind_congr fun made _ => ?_
  rw [run, Field.of_reading]
  cases decode.reading origin value with
  | none => simp
  | some read =>
    change run origin behind (put read made) = _
    rw [run_spares behind spares, Option.map_eq_bind]
    rfl

/-- A record is read from an object by the member under one name, and apart from that by all others
together. -/
theorem object_around (entered : origin.enter = .ok ()) (name : String) (blank : R)
    {fields : List (Field R)} {called : String} {decode : Decoder α} {put : α → R → R}
    (found : fields.find? (·.goesBy called) = some (.of called decode put))
    (spares : ∀ field ∈ fields, field.name ≠ called → field.Spares put)
    (front back : List (String × Value)) :
    ∃ rest : Option R, ∀ value,
      (Record.decode name blank fields).reading origin
        (.object (front ++ (called, value) :: back)) =
          rest.bind fun record => (decode.reading origin value).map (put · record) := by
  have parts (value : Value) : met fields (front ++ (called, value) :: back) =
      met fields front ++ (.of called decode put, called, value) :: met fields back := by
    rw [met, List.filterMap_append, List.filterMap_cons, found]
    rfl
  have same (value other : Value) :
      Complete fields (met fields (front ++ (called, value) :: back)) ↔
        Complete fields (met fields (front ++ (called, other) :: back)) := by
    simp only [Complete, names, parts, List.map_append, List.map_cons]
  by_cases complete : Complete fields (met fields (front ++ (called, .null) :: back))
  · refine ⟨run origin (met fields front ++ met fields back) blank, fun value => ?_⟩
    rw [decode_object entered, if_pos ((same value _).mpr complete), parts]
    refine run_around _ _ (fun entry among => ?_) _ _ _ _
    -- The field itself is not met again behind, for it is met only once.
    obtain ⟨member, -, isMet⟩ := List.mem_filterMap.mp among
    obtain ⟨field, isField, rfl⟩ := Option.map_eq_some_iff.mp isMet
    refine spares field (List.mem_of_find?_eq_some isField) fun again => ?_
    have once := complete.1
    rw [parts, names, List.map_append, List.map_cons, List.nodup_append, List.nodup_cons] at once
    exact once.2.1.1 (List.mem_map.mpr ⟨_, among, again⟩)
  · refine ⟨none, fun value => ?_⟩
    rw [decode_object entered, if_neg ((same value _).not.mpr complete)]
    rfl

end Around

end Record

namespace Decoder

variable {α β : Type}

/-- A sequence is read item by item. -/
theorem sequence_reading {origin : Origin} (entered : origin.enter = .ok ()) (expected : String)
    (decode : Decoder α) (items : List Value) :
    (sequence expected decode).reading origin (.list items) =
      items.mapM (decode.reading origin) := by
  have each : ((Source.standingItems origin items).mapM decode).toOption =
      items.mapM (decode.reading origin) := by
    induction items with
    | nil => rfl
    | cons item rest inductionHypothesis =>
      rw [Source.standingItems, List.mapM_cons, List.mapM_cons, Decoded.to_option_bind, ← reading]
      simp only [Decoded.to_option_bind, inductionHypothesis]
      rfl
  rw [reading, Source.standing, sequence, entered, ← each]
  simp only [Decoded.to_option_bind, leave]
  cases (Source.standingItems origin items).mapM decode <;> rfl

/-- So is a list. -/
theorem list_reading {origin : Origin} (entered : origin.enter = .ok ()) (decode : Decoder α)
    (items : List Value) :
    (list decode).reading origin (.list items) = items.mapM (decode.reading origin) :=
  sequence_reading entered "a sequence" decode items

/-- Computations that are alike one by one are alike together. -/
theorem mapM_alike {alike : β → β → Prop} {first second : α → Option β} {items others : List α}
    (each : List.Forall₂ (fun item other => Option.Rel alike (first item) (second other))
      items others) :
    Option.Rel (List.Forall₂ alike) (items.mapM first) (others.mapM second) := by
  induction each with
  | nil => exact .some .nil
  | cons here _ tail =>
    rw [List.mapM_cons, List.mapM_cons]
    exact rel_bind here fun _ _ here => rel_bind tail fun _ _ tail => .some (.cons here tail)

/-- Lists are read alike whose items are. -/
theorem list_alike {origin other : Origin} (entered : origin.enter = .ok ())
    (otherEntered : other.enter = .ok ()) {alike : α → α → Prop} {decode counterpart : Decoder α}
    {items : List Value} {first second : Value → Value}
    (each : ∀ item ∈ items, Option.Rel alike (decode.reading origin (first item))
      (counterpart.reading other (second item))) :
    Option.Rel (List.Forall₂ alike) ((list decode).reading origin (.list (items.map first)))
      ((list counterpart).reading other (.list (items.map second))) := by
  rw [list_reading entered, list_reading otherEntered]
  refine mapM_alike ?_
  rw [List.forall₂_map_left_iff, List.forall₂_map_right_iff]
  exact List.forall₂_same.mpr each

end Decoder

end VectorMotion.Json
