import Mathlib.Data.List.Forall2
import Mathlib.Data.String.Basic
import VectorMotion.Json.Decode

/-!
# Objects that agree but for one member

A record is read from an object member by member, and a member under a name that no field goes by
is passed over. So what stands under such a name makes no difference, and what stands under the name
of one field makes a difference to that field only. Both are instances of one law: two objects that
are alike member by member are read alike.

A value that is read again can always be passed over and always be taken as a whole. What is taken
is the value in normal form; this is where the members of an object are put in order.
-/

namespace VectorMotion.Json

/-! ## Values that are read again -/

namespace Value

/-- What holds of a value if it holds of its parts holds of every value. -/
theorem by_parts {motive : Value → Prop} (atom : ∀ value, motive (.atom value))
    (list : ∀ items, (∀ item ∈ items, motive item) → motive (.list items))
    (object : ∀ members : List (String × Value), (∀ member ∈ members, motive member.2) →
      motive (.object members))
    (value : Value) : motive value := by
  match value with
  | .atom value => exact atom value
  | .list items => exact list items fun item among => by_parts atom list object item
  | .object members => exact object members fun member among => by_parts atom list object member.2
termination_by sizeOf value
decreasing_by
  · have smaller := List.sizeOf_lt_of_mem among
    simp only [Value.list.sizeOf_spec]
    omega
  · have smaller := List.sizeOf_lt_of_mem among
    obtain ⟨name, inner⟩ := member
    simp only [Value.object.sizeOf_spec, Prod.mk.sizeOf_spec] at smaller ⊢
    omega

mutual
/-- A value with the members of all its objects in order. -/
def normal : Value → Value
  | .atom value => .atom value
  | .list items => .list (normalItems items)
  | .object members => ofMembers (normalMembers members)

/-- Items in normal form. -/
def normalItems : List Value → List Value
  | [] => []
  | item :: rest => normal item :: normalItems rest

/-- Members with their values in normal form, still in the order in which they stand. -/
def normalMembers : List (String × Value) → List (String × Value)
  | [] => []
  | (name, value) :: rest => (name, normal value) :: normalMembers rest
end

/-- The items of a list are put in their normal form one by one. -/
theorem normal_items (items : List Value) : normalItems items = items.map normal := by
  induction items with
  | nil => rfl
  | cons item rest inductionHypothesis => rw [normalItems, inductionHypothesis, List.map_cons]

/-- The values of the members are put in their normal form one by one. -/
theorem normal_members (members : List (String × Value)) :
    normalMembers members = members.map fun member => (member.1, normal member.2) := by
  induction members with
  | nil => rfl
  | cons member rest inductionHypothesis =>
    rw [normalMembers, inductionHypothesis, List.map_cons]

/-- Members in strictly ascending order of their names. -/
def Ascending (members : List (String × Value)) : Prop :=
  members.Pairwise fun first second => first.1 < second.1

/-- After an insertion there is the new member, and there are no others than before. -/
theorem mem_insert {name : String} {value : Value} {members : List (String × Value)}
    {entry : String × Value} (member : entry ∈ insertMember name value members) :
    entry = (name, value) ∨ entry ∈ members := by
  induction members with
  | nil => exact .inl (List.mem_singleton.mp member)
  | cons first rest inductionHypothesis =>
    obtain ⟨other, old⟩ := first
    rw [insertMember] at member
    split at member
    · exact List.mem_cons.mp member
    · split at member
      · exact (List.mem_cons.mp member).imp_right (List.mem_cons_of_mem _)
      · rcases List.mem_cons.mp member with rfl | behind
        · exact .inr List.mem_cons_self
        · exact (inductionHypothesis behind).imp_right (List.mem_cons_of_mem _)

/-- Members in ascending order stay so when one more is inserted. -/
theorem insert_ascending {members : List (String × Value)} (ascending : Ascending members)
    (name : String) (value : Value) : Ascending (insertMember name value members) := by
  induction ascending with
  | nil => exact List.pairwise_singleton ..
  | @cons first rest before ascending inductionHypothesis =>
    obtain ⟨other, old⟩ := first
    rw [insertMember]
    split
    case isTrue less =>
      refine .cons ?_ (.cons before ascending)
      intro entry member
      rcases List.mem_cons.mp member with rfl | behind
      · exact less
      · exact lt_trans less (before entry behind)
    case isFalse notLess =>
      split
      case isTrue same =>
        obtain rfl : name = other := eq_of_beq same
        exact .cons before ascending
      case isFalse distinct =>
        have greater : other < name :=
          lt_of_le_of_ne (not_lt.mp notLess) fun same => distinct (by simp [same])
        refine .cons ?_ inductionHypothesis
        intro entry member
        rcases mem_insert member with rfl | behind
        · exact greater
        · exact before entry behind

/-- A member whose name is greater than all others is put at the end. -/
theorem insert_last {members : List (String × Value)} {name : String} (value : Value)
    (last : ∀ entry ∈ members, entry.1 < name) :
    insertMember name value members = members ++ [(name, value)] := by
  induction members with
  | nil => rfl
  | cons first rest inductionHypothesis =>
    have greater : first.1 < name := last first List.mem_cons_self
    rw [insertMember, if_neg (lt_asymm greater), if_neg (by simpa using greater.ne'),
      inductionHypothesis fun entry member => last entry (List.mem_cons_of_mem _ member)]
    rfl

/-- The members of an object in normal form stand in ascending order, and none has been made up. -/
theorem of_members_ascending (members : List (String × Value)) :
    ∃ ordered, ofMembers members = .object ordered ∧ Ascending ordered ∧
      ∀ entry ∈ ordered, entry ∈ members := by
  suffices fold : ∀ known : List (String × Value), Ascending known →
      let ordered := members.foldl (fun known entry => insertMember entry.1 entry.2 known) known
      Ascending ordered ∧ ∀ entry ∈ ordered, entry ∈ known ∨ entry ∈ members by
    obtain ⟨ascending, entries⟩ := fold [] .nil
    exact ⟨_, rfl, ascending, fun entry member => (entries entry member).resolve_left (by simp)⟩
  induction members with
  | nil => exact fun known ascending => ⟨ascending, fun entry => .inl⟩
  | cons first rest inductionHypothesis =>
    intro known ascending ordered
    obtain ⟨restAscending, entries⟩ :=
      inductionHypothesis _ (insert_ascending ascending first.1 first.2)
    refine ⟨restAscending, fun entry member => ?_⟩
    rcases entries entry member with inserted | behind
    · rcases mem_insert inserted with rfl | standing
      · exact .inr List.mem_cons_self
      · exact .inl standing
    · exact .inr (List.mem_cons_of_mem _ behind)

/-- Members that stand in ascending order stay as they are. -/
theorem of_ascending {members : List (String × Value)} (ascending : Ascending members) :
    ofMembers members = .object members := by
  suffices fold : ∀ known, Ascending (known ++ members) →
      members.foldl (fun known entry => insertMember entry.1 entry.2 known) known =
        known ++ members from congrArg Value.object (fold [] ascending)
  induction ascending with
  | nil => exact fun known _ => (List.append_nil known).symm
  | @cons first rest before _ inductionHypothesis =>
    intro known ascending
    have last := (List.pairwise_append.mp ascending).2.2
    rw [List.foldl_cons, insert_last _ fun entry member => last entry member _ List.mem_cons_self,
      inductionHypothesis _ (by rwa [List.append_assoc]), List.append_assoc]
    rfl

/-- Whether members are in ascending order depends on their names only. -/
theorem ascending_of_names {members others : List (String × Value)}
    (same : members.map Prod.fst = others.map Prod.fst) (ascending : Ascending members) :
    Ascending others := by
  have names : (others.map Prod.fst).Pairwise (· < ·) := same ▸ List.pairwise_map.mpr ascending
  exact List.pairwise_map.mp names

/-- A list is in normal form if its items are. -/
theorem normal_list_iff (items : List Value) :
    (list items).normal = .list items ↔ ∀ item ∈ items, item.normal = item := by
  rw [normal, normal_items, list.injEq]
  constructor
  · intro same item among
    obtain ⟨index, bound, rfl⟩ := List.mem_iff_getElem.mp among
    have each := List.getElem_of_eq same (by simpa using bound)
    rwa [List.getElem_map] at each
  · intro each
    exact (List.map_congr_left each).trans (List.map_id items)

/-- An object is in normal form if its members stand in order and what stands under them is. -/
theorem normal_object_iff (members : List (String × Value)) :
    (object members).normal = .object members ↔
      Ascending members ∧ ∀ member ∈ members, member.2.normal = member.2 := by
  have names : (normalMembers members).map Prod.fst = members.map Prod.fst := by
    rw [normal_members, List.map_map]
    rfl
  constructor
  · intro same
    rw [normal] at same
    obtain ⟨ordered, made, ascending, -⟩ := of_members_ascending (normalMembers members)
    obtain rfl : ordered = members := object.inj (made.symm.trans same)
    refine ⟨ascending, fun member among => ?_⟩
    rw [of_ascending (ascending_of_names names.symm ascending), normal_members] at same
    obtain ⟨index, bound, rfl⟩ := List.mem_iff_getElem.mp among
    have each := List.getElem_of_eq (object.inj same) (by simpa using bound)
    rw [List.getElem_map] at each
    exact congrArg Prod.snd each
  · rintro ⟨ascending, each⟩
    have same : members.map (fun member => (member.1, member.2.normal)) = members.map id :=
      List.map_congr_left fun member among => congrArg (Prod.mk member.1) (each member among)
    rw [normal, of_ascending (ascending_of_names names.symm ascending), normal_members, same,
      List.map_id]

/-- No name occurs twice in an object in normal form. -/
theorem names_once {members : List (String × Value)}
    (normal : (object members).normal = .object members) : (members.map Prod.fst).Nodup := by
  have ascending := ((normal_object_iff members).mp normal).1
  exact (List.pairwise_map.mpr ascending).imp fun less => less.ne

end Value

namespace Source

mutual
/-- A value as a source of the given origin. It may have been set aside before it is read again. -/
def standing (origin : Origin) : Value → Source
  | .atom value => .atom value
  | .list items => .list origin (standingItems origin items) none
  | .object members => .object origin (standingMembers origin members) none

/-- Items as sources of the given origin. -/
def standingItems (origin : Origin) : List Value → List Source
  | [] => []
  | item :: rest => standing origin item :: standingItems origin rest

/-- Members as sources of the given origin. -/
def standingMembers (origin : Origin) : List (String × Value) → List (Option String × Source)
  | [] => []
  | (name, value) :: rest => (some name, standing origin value) :: standingMembers origin rest
end

mutual
/-- A value that stands by itself is a source as any value is. -/
theorem standing_value (value : Value) : standing .value value = ofValue value := by
  match value with
  | .atom value => rfl
  | .list items => rw [standing, ofValue, standing_items items]
  | .object members => rw [standing, ofValue, standing_members members]

/-- So are the items of a list that stands by itself. -/
theorem standing_items (items : List Value) : standingItems .value items = ofItems items := by
  match items with
  | [] => rfl
  | item :: rest => rw [standingItems, ofItems, standing_value item, standing_items rest]

/-- So are the members of an object that stands by itself. -/
theorem standing_members (members : List (String × Value)) :
    standingMembers .value members = ofMembers members := by
  match members with
  | [] => rfl
  | (name, value) :: rest =>
    rw [standingMembers, ofMembers, standing_value value, standing_members rest]
end

section

variable (origin : Origin)

mutual
/-- A value can be passed over wherever it comes from. -/
theorem skip_standing (value : Value) : (standing origin value).skip = .ok () := by
  match value with
  | .atom value => rfl
  | .list items =>
    rw [standing, skip, skip_standing_items items]
    rfl
  | .object members =>
    rw [standing, skip, skip_standing_members members]
    rfl

/-- Items that stand anywhere can be passed over. -/
theorem skip_standing_items (items : List Value) :
    skipItems (standingItems origin items) = .ok () := by
  match items with
  | [] => rfl
  | item :: rest =>
    rw [standingItems, skipItems, skip_standing item]
    exact skip_standing_items rest

/-- Members that stand anywhere can be passed over. -/
theorem skip_standing_members (members : List (String × Value)) :
    skipMembers (standingMembers origin members) = .ok () := by
  match members with
  | [] => rfl
  | (name, value) :: rest =>
    rw [standingMembers, skipMembers, skip_standing value]
    exact skip_standing_members rest
end

variable {origin : Origin}

mutual
/-- A value that is read as a whole comes out in normal form. -/
theorem whole_standing (entered : origin.enter = .ok ()) (value : Value) :
    (standing origin value).toValue = .ok value.normal := by
  match value with
  | .atom value => rfl
  | .list items =>
    rw [standing, toValue, entered, whole_standing_items entered items]
    rfl
  | .object members =>
    rw [standing, toValue, entered, whole_standing_members entered members]
    rfl

/-- Items that stand where one may go deeper are read as wholes in their normal form. -/
theorem whole_standing_items (entered : origin.enter = .ok ()) (items : List Value) :
    toItems (standingItems origin items) = .ok (Value.normalItems items) := by
  match items with
  | [] => rfl
  | item :: rest =>
    rw [standingItems, toItems, whole_standing entered item, whole_standing_items entered rest]
    rfl

/-- So are members. -/
theorem whole_standing_members (entered : origin.enter = .ok ())
    (members : List (String × Value)) :
    toMembers (standingMembers origin members) = .ok (Value.normalMembers members) := by
  match members with
  | [] => rfl
  | (name, value) :: rest =>
    rw [standingMembers, toMembers, whole_standing entered value,
      whole_standing_members entered rest]
    rfl
end

mutual
/-- A value that is set aside stays the value it is. -/
theorem keep_standing (entered : origin.enter = .ok ()) (value : Value) :
    (standing origin value).keep = .ok (standing .kept value) := by
  match value with
  | .atom value => rfl
  | .list items =>
    rw [standing, keep, entered, keep_standing_items entered items]
    rfl
  | .object members =>
    rw [standing, keep, entered, keep_standing_members entered members]
    rfl

/-- Items that stand where one may go deeper can be set aside as they are. -/
theorem keep_standing_items (entered : origin.enter = .ok ()) (items : List Value) :
    keepItems (standingItems origin items) = .ok (standingItems .kept items) := by
  match items with
  | [] => rfl
  | item :: rest =>
    rw [standingItems, keepItems, keep_standing entered item, keep_standing_items entered rest]
    rfl

/-- So can members. -/
theorem keep_standing_members (entered : origin.enter = .ok ())
    (members : List (String × Value)) :
    keepMembers (standingMembers origin members) = .ok (standingMembers .kept members) := by
  match members with
  | [] => rfl
  | (name, value) :: rest =>
    rw [standingMembers, keepMembers, keep_standing entered value,
      keep_standing_members entered rest]
    rfl
end

end

/-- A value that is read again can be passed over. -/
theorem skip_value (value : Value) : (ofValue value).skip = .ok () :=
  standing_value value ▸ skip_standing .value value

/-- A value that is read again as a whole comes out in normal form. -/
theorem whole_value (value : Value) : (ofValue value).toValue = .ok value.normal :=
  standing_value value ▸ whole_standing rfl value

/-- A list of values that are read again comes out item by item in normal form. -/
theorem whole_list (items : List Value) :
    Decoder.list toValue (ofValue (.list items)) = .ok (items.map Value.normal) := by
  have each : (ofItems items).mapM toValue = .ok (items.map Value.normal) := by
    induction items with
    | nil => rfl
    | cons item rest inductionHypothesis =>
      rw [ofItems, List.mapM_cons, whole_value item, inductionHypothesis]
      rfl
  rw [ofValue, Decoder.list, Decoder.sequence, each]
  rfl

end Source

/-! ## Values that have been read -/

/-- Steps that have all been taken were each taken. -/
theorem Decoded.of_bind {α β : Type} {first : Decoded α} {go : α → Decoded β} {result : β}
    (done : first >>= go = .ok result) : ∃ value, first = .ok value ∧ go value = .ok result := by
  cases first with
  | ok value => exact ⟨value, rfl, done⟩
  | error misfit => nomatch done

namespace Source

mutual
/-- What has been read as a whole is in normal form. -/
theorem normal_whole (source : Source) (value : Value) (read : source.toValue = .ok value) :
    value.normal = value := by
  match source with
  | .atom word =>
    obtain rfl := Except.ok.inj read
    rfl
  | .unreadable => nomatch read
  | .broken flaw => nomatch read
  | .list origin items flaw =>
    rw [toValue] at read
    obtain ⟨_, -, read⟩ := Decoded.of_bind read
    obtain ⟨values, itemsRead, read⟩ := Decoded.of_bind read
    obtain ⟨_, -, read⟩ := Decoded.of_bind read
    obtain rfl := Except.ok.inj read
    exact congrArg Value.list (normal_items items values itemsRead)
  | .object origin members flaw =>
    rw [toValue] at read
    obtain ⟨_, -, read⟩ := Decoded.of_bind read
    obtain ⟨values, membersRead, read⟩ := Decoded.of_bind read
    obtain ⟨_, -, read⟩ := Decoded.of_bind read
    obtain rfl := Except.ok.inj read
    obtain ⟨ordered, made, ascending, entries⟩ := Value.of_members_ascending values
    have each := normal_members members values membersRead
    rw [made]
    exact (Value.normal_object_iff ordered).mpr
      ⟨ascending, fun entry member => each entry (entries entry member)⟩

/-- Items that have been read are in their normal form. -/
theorem normal_items (items : List Source) (values : List Value)
    (read : toItems items = .ok values) : Value.normalItems values = values := by
  match items with
  | [] =>
    obtain rfl := Except.ok.inj read
    rfl
  | item :: rest =>
    rw [toItems] at read
    obtain ⟨value, itemRead, read⟩ := Decoded.of_bind read
    obtain ⟨behind, restRead, read⟩ := Decoded.of_bind read
    obtain rfl := Except.ok.inj read
    rw [Value.normalItems, normal_whole item value itemRead, normal_items rest behind restRead]

/-- The values of members that have been read are in their normal form. -/
theorem normal_members (members : List (Option String × Source))
    (values : List (String × Value)) (read : toMembers members = .ok values) :
    ∀ entry ∈ values, entry.2.normal = entry.2 := by
  match members with
  | [] =>
    obtain rfl := Except.ok.inj read
    simp
  | (name, item) :: rest =>
    rw [toMembers] at read
    obtain ⟨called, -, read⟩ := Decoded.of_bind read
    obtain ⟨value, itemRead, read⟩ := Decoded.of_bind read
    obtain ⟨behind, restRead, read⟩ := Decoded.of_bind read
    obtain rfl := Except.ok.inj read
    exact List.forall_mem_cons.mpr
      ⟨normal_whole item value itemRead, normal_members rest behind restRead⟩
end

end Source

/-! ## Outcomes that are alike -/

/-- Two outcomes of reading: the same misfit, or two results that are alike. -/
def Decoded.Alike {α β : Type} (alike : α → β → Prop) : Decoded α → Decoded β → Prop
  | .ok first, .ok second => alike first second
  | .error first, .error second => first = second
  | _, _ => False

namespace Decoded.Alike

variable {α β γ δ : Type}

/-- An outcome is like itself if every result is. -/
theorem of_eq {alike : α → α → Prop} (outcome : Decoded α)
    (each : ∀ result, outcome = .ok result → alike result result) :
    Alike alike outcome outcome := by
  cases outcome with
  | ok result => exact each result rfl
  | error misfit => rfl

/-- Two readings in two steps come out alike if their first steps do, and their second steps from
results that are alike. -/
theorem bind (alike : α → β → Prop) {after : γ → δ → Prop} {first : Decoded α}
    {second : Decoded β} {go : α → Decoded γ} {next : β → Decoded δ}
    (results : Alike alike first second)
    (each : ∀ a b, alike a b → Alike after (go a) (next b)) :
    Alike after (first >>= go) (second >>= next) := by
  cases first with
  | ok a =>
    cases second with
    | ok b => exact each a b results
    | error misfit => exact results.elim
  | error misfit =>
    cases second with
    | ok b => exact results.elim
    | error other => exact results

/-- What comes of outcomes that are the same when they are alike. -/
theorem to_eq {first second : Decoded α} (results : Alike (· = ·) first second) :
    first = second := by
  cases first with
  | ok a =>
    cases second with
    | ok b => exact congrArg _ results
    | error misfit => exact results.elim
  | error misfit =>
    cases second with
    | ok b => exact results.elim
    | error other => exact congrArg _ results

end Decoded.Alike

/-! ## Objects -/

/-- Two lists of members that agree but for what stands under one name. There the values are
related. -/
def Apart (name : String) (related : Value → Value → Prop) :
    List (String × Value) → List (String × Value) → Prop :=
  List.Forall₂ fun first second =>
    first.1 = second.1 ∧ (first.2 = second.2 ∨ first.1 = name ∧ related first.2 second.2)

namespace Apart

variable {name : String} {related : Value → Value → Prop}

/-- Members agree with themselves under every name. -/
theorem refl (members : List (String × Value)) : Apart name related members members :=
  List.forall₂_same.mpr fun _ _ => ⟨rfl, .inl rfl⟩

/-- One value is replaced by a related one. -/
theorem at_member {first second : Value} (values : related first second)
    (front back : List (String × Value)) :
    Apart name related (front ++ (name, first) :: back) (front ++ (name, second) :: back) :=
  List.rel_append (refl front) (.cons ⟨rfl, .inr ⟨rfl, values⟩⟩ (refl back))

/-- All values are changed in a way that keeps related values related. -/
theorem map {after : Value → Value → Prop} {members others : List (String × Value)}
    (apart : Apart name related members others) (change : String → Value → Value)
    (keeps : ∀ first second, related first second →
      after (change name first) (change name second)) :
    Apart name after (members.map fun member => (member.1, change member.1 member.2))
      (others.map fun member => (member.1, change member.1 member.2)) := by
  refine List.forall₂_map_left_iff.mpr (List.forall₂_map_right_iff.mpr (apart.imp ?_))
  rintro ⟨called, first⟩ ⟨_, second⟩ ⟨rfl, same | ⟨named, values⟩⟩
  · exact ⟨rfl, .inl (congrArg (change called) same)⟩
  · obtain rfl : called = name := named
    exact ⟨rfl, .inr ⟨rfl, keeps _ _ values⟩⟩

/-- What stands under another name is the same. -/
theorem lookup {members others : List (String × Value)}
    (apart : Apart name related members others) (other : String) (distinct : other ≠ name) :
    members.lookup other = others.lookup other := by
  induction apart with
  | nil => rfl
  | @cons first second _ _ agree _ inductionHypothesis =>
    obtain ⟨called, value⟩ := first
    obtain ⟨_, replaced⟩ := second
    obtain ⟨rfl, values⟩ := agree
    rw [List.lookup_cons, List.lookup_cons, inductionHypothesis]
    cases found : other == called with
    | false => rfl
    | true =>
      rcases values with same | ⟨named, -⟩
      · exact congrArg some same
      · exact absurd ((eq_of_beq found).trans named) distinct

/-- Inserting one member on both sides keeps members apart in no other name, if the new values are
equal or may differ. -/
theorem insert_member {members others : List (String × Value)}
    (apart : Apart name related members others) (called : String) (first second : Value)
    (values : first = second ∨ called = name ∧ related first second) :
    Apart name related (Value.insertMember called first members)
      (Value.insertMember called second others) := by
  induction apart with
  | nil => exact .cons ⟨rfl, values⟩ .nil
  | @cons member other _ _ agree behind inductionHypothesis =>
    obtain ⟨standing, value⟩ := member
    obtain ⟨_, replaced⟩ := other
    obtain ⟨rfl, standingValues⟩ := agree
    rw [Value.insertMember, Value.insertMember]
    split
    · exact .cons ⟨rfl, values⟩ (.cons ⟨rfl, standingValues⟩ behind)
    · split
      · exact .cons ⟨rfl, values⟩ behind
      · exact .cons ⟨rfl, standingValues⟩ inductionHypothesis

/-- Putting members in order keeps them apart. -/
theorem ordered {members others : List (String × Value)}
    (apart : Apart name related members others) :
    ∃ first second, Value.ofMembers members = .object first ∧
      Value.ofMembers others = .object second ∧ Apart name related first second := by
  suffices fold : ∀ first second : List (String × Value), Apart name related first second →
      Apart name related
        (members.foldl (fun known entry => Value.insertMember entry.1 entry.2 known) first)
        (others.foldl (fun known entry => Value.insertMember entry.1 entry.2 known) second) from
    ⟨_, _, rfl, rfl, fold [] [] .nil⟩
  induction apart with
  | nil => exact fun _ _ => id
  | @cons member other _ _ agree _ inductionHypothesis =>
    intro first second sofar
    obtain ⟨called, value⟩ := member
    obtain ⟨_, replaced⟩ := other
    obtain ⟨rfl, values⟩ := agree
    exact inductionHypothesis _ _ (sofar.insert_member called value replaced values)

end Apart

/-! ## Records -/

namespace Record

variable {R : Type}

/-- What a field reads is put into the record. -/
theorem Field.of_reads {α : Type} {name : String} {decode : Decoder α} {put : α → R → R}
    {source : Source} {change : R → R}
    (reads : (Field.of name decode put).read source = .ok change) :
    ∃ value, decode source = .ok value ∧ change = put value := by
  have unfolded : put <$> decode source = .ok change := reads
  cases decoded : decode source with
  | ok value =>
    rw [decoded] at unfolded
    exact ⟨value, rfl, (Except.ok.inj unfolded).symm⟩
  | error misfit =>
    rw [decoded] at unfolded
    nomatch unfolded

/-- A member is read by the field that goes by its name, once. -/
theorem read_members_cons (fields : List (Field R)) (seen : List String) (name : String)
    (value : Value) (rest : List (Option String × Source)) (record : R) :
    readMembers fields seen ((some name, .ofValue value) :: rest) record =
      match fields.find? (·.goesBy name) with
      | none => readMembers fields seen rest record
      | some field =>
        if seen.contains field.name then .error (.duplicateField field.name)
        else field.read (.ofValue value) >>= fun put =>
          readMembers fields (field.name :: seen) rest (put record) := by
  cases found : fields.find? (·.goesBy name) with
  | none =>
    simp only [readMembers, nameOf, Bind.bind, Except.bind, found, Source.skip_value]
  | some field => simp only [readMembers, nameOf, Bind.bind, Except.bind, found]

/-- Objects that are alike member by member are read alike: where a field reads what differs, it
must change records that are alike into records that are alike. -/
theorem alike_decoded (name called : String) (blank : R) (fields : List (Field R))
    (related : Value → Value → Prop) (alike : R → R → Prop) (start : alike blank blank)
    (same : ∀ field ∈ fields, ∀ source put, field.read source = .ok put →
      ∀ first second, alike first second → alike (put first) (put second))
    (apart : ∀ field ∈ fields, field.goesBy called → ∀ value other, related value other →
      Decoded.Alike (fun put change => ∀ first second, alike first second →
        alike (put first) (change second)) (field.read (.ofValue value))
        (field.read (.ofValue other)))
    {members others : List (String × Value)} (agree : Apart called related members others) :
    Decoded.Alike alike (decode name blank fields (.ofValue (.object members)))
      (decode name blank fields (.ofValue (.object others))) := by
  -- The induction goes over the members; both sides have read the same fields by then.
  have read : ∀ seen first second, alike first second →
      Decoded.Alike (fun a b => a.1 = b.1 ∧ alike a.2 b.2)
        (readMembers fields seen (Source.ofMembers members) first)
        (readMembers fields seen (Source.ofMembers others) second) := by
    induction agree with
    | nil => exact fun seen first second records => ⟨rfl, records⟩
    | @cons member other _ _ agree _ inductionHypothesis =>
      obtain ⟨standing, value⟩ := member
      obtain ⟨_, replaced⟩ := other
      obtain ⟨rfl, values⟩ := agree
      intro seen first second records
      simp only [Source.ofMembers, read_members_cons]
      cases found : fields.find? (·.goesBy standing) with
      | none => exact inductionHypothesis seen first second records
      | some field =>
        have member := List.mem_of_find?_eq_some found
        have goes := List.find?_some found
        simp only
        split
        · exact rfl
        · refine .bind (fun put change => ∀ a b, alike a b → alike (put a) (change b))
            ?_ fun put change puts => inductionHypothesis _ _ _ (puts _ _ records)
          rcases values with equal | ⟨named, values⟩
          · rw [show value = replaced from equal]
            exact .of_eq _ fun put reads => same field member _ put reads
          · obtain rfl : standing = called := named
            exact apart field member goes value replaced values
  refine .bind (fun _ _ => True) trivial fun _ _ _ => ?_
  refine .bind _ (read [] blank blank start) ?_
  rintro ⟨seen, first⟩ ⟨_, second⟩ ⟨rfl, records⟩
  refine .bind (fun _ _ => True) trivial fun _ _ _ => ?_
  exact .bind (fun _ _ => True) (.of_eq _ fun _ _ => trivial) fun _ _ _ => records

/-- What stands under a name that no field goes by makes no difference. -/
theorem passed_over (name called : String) (blank : R) (fields : List (Field R))
    (unread : fields.any (·.goesBy called) = false) {related : Value → Value → Prop}
    {members others : List (String × Value)} (agree : Apart called related members others) :
    decode name blank fields (.ofValue (.object members)) =
      decode name blank fields (.ofValue (.object others)) := by
  refine Decoded.Alike.to_eq (alike_decoded name called blank fields related (· = ·) rfl ?_ ?_ agree)
  · rintro field - source put - first _ rfl
    rfl
  · intro field member goes
    exact absurd goes (List.any_eq_false.mp unread field member)

end Record

end VectorMotion.Json
