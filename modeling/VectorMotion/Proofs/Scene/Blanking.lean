import VectorMotion.Proofs.Scene.Stripping

/-!
# Fragments with their contents blanked

What stands under `k` in a property is its content. Two fragments that differ in contents only are
the same once these are blanked: wherever a property can stand, null is put under its `k`. Blanking
goes by slots, for what stands under `k` in the table of a gradient is a property itself.

Contents may hold anything, also objects with expressions. Where there are no expressions outside of
contents, replacing expressions changes contents only.
-/

namespace VectorMotion.Scene.Expression

open Json

variable {S P : Type}

/-- The name under which the content of a property stands. -/
def contentMember : String := "k"

/-- Whether content stands under a name of an object in a slot. -/
def Slot.holds (slot : Slot) (name : String) : Bool := slot == .property && name == contentMember

mutual
/-- A value in a slot with null in place of all contents. -/
def blanked (slot : Slot) : Value → Value
  | .atom value => .atom value
  | .list items => .list (blankedItems slot.within items)
  | .object members => .object (blankedMembers slot members)

/-- Items in a slot with their contents blanked. -/
def blankedItems (slot : Slot) : List Value → List Value
  | [] => []
  | item :: rest => blanked slot item :: blankedItems slot rest

/-- The members of an object in a slot with their contents blanked. -/
def blankedMembers (slot : Slot) : List (String × Value) → List (String × Value)
  | [] => []
  | (name, value) :: rest =>
    (name, if slot.holds name then Value.null else blanked (slot.under name) value) ::
      blankedMembers slot rest
end

/-- What stands under the name of a member of an object in a slot, with contents blanked. -/
def blankedMember (slot : Slot) (member : String × Value) : Value :=
  if slot.holds member.1 then Value.null else blanked (slot.under member.1) member.2

/-- A list is blanked item by item. -/
theorem blanked_items (slot : Slot) (items : List Value) :
    blankedItems slot items = items.map (blanked slot) := by
  induction items with
  | nil => rfl
  | cons item rest inductionHypothesis => rw [blankedItems, inductionHypothesis, List.map_cons]

/-- The members of an object are blanked from the first one on. -/
theorem blanked_members_cons (slot : Slot) (member : String × Value)
    (rest : List (String × Value)) : blankedMembers slot (member :: rest) =
      (member.1, blankedMember slot member) :: blankedMembers slot rest := rfl

/-- The members of an object are blanked each for itself, under its own name. -/
theorem blanked_members (slot : Slot) (members : List (String × Value)) :
    blankedMembers slot members =
      members.map fun member => (member.1, blankedMember slot member) := by
  induction members with
  | nil => rfl
  | cons member rest inductionHypothesis =>
    rw [blanked_members_cons, inductionHypothesis, List.map_cons]

/-- What stands under a name is blanked. -/
theorem blanked_members_lookup (slot : Slot) (members : List (String × Value)) (name : String) :
    (blankedMembers slot members).lookup name =
      (members.lookup name).map fun value => blankedMember slot (name, value) := by
  induction members with
  | nil => rfl
  | cons member rest inductionHypothesis =>
    obtain ⟨called, value⟩ := member
    rw [blankedMembers, List.lookup_cons, List.lookup_cons, inductionHypothesis]
    cases named : name == called with
    | false => rfl
    | true =>
      obtain rfl : name = called := eq_of_beq named
      rfl

/-- No text is content under another name. -/
theorem blanked_members_text (slot : Slot) (members : List (String × Value)) {name : String}
    (noContent : name ≠ contentMember) :
    ((blankedMembers slot members).lookup name).bind Value.text? =
      (members.lookup name).bind Value.text? := by
  have other : slot.holds name = false := by simp [Slot.holds, noContent]
  rw [blanked_members_lookup, Option.bind_map]
  congr 1
  funext value
  rw [Function.comp_apply, blankedMember, if_neg (by simp [other])]
  cases value <;> rfl

/-- The order of members is that of their names, which blanking does not change. -/
theorem blanked_of_members (slot : Slot) (members : List (String × Value)) :
    blanked slot (Value.ofMembers members) = Value.ofMembers (blankedMembers slot members) := by
  have inserted (name : String) (value : Value) (known : List (String × Value)) :
      blankedMembers slot (Value.insertMember name value known) =
        Value.insertMember name (blankedMember slot (name, value)) (blankedMembers slot known) := by
    induction known with
    | nil => rfl
    | cons member rest inductionHypothesis =>
      obtain ⟨other, old⟩ := member
      rw [blanked_members_cons, Value.insertMember, Value.insertMember]
      split_ifs
      · rfl
      · rfl
      · rw [blanked_members_cons, inductionHypothesis]
  rw [Value.ofMembers, Value.ofMembers, blanked]
  refine congrArg Value.object ?_
  -- Members are inserted one after the other, among those that have been inserted before.
  suffices fold : ∀ known, blankedMembers slot
      (members.foldl (fun ordered entry => Value.insertMember entry.1 entry.2 ordered) known) =
        (blankedMembers slot members).foldl
          (fun ordered entry => Value.insertMember entry.1 entry.2 ordered)
          (blankedMembers slot known) from fold []
  induction members with
  | nil => exact fun known => rfl
  | cons member rest inductionHypothesis =>
    intro known
    rw [List.foldl_cons, inductionHypothesis, inserted]
    rfl

/-- It does not matter whether a value is blanked before it is brought into normal form or after. -/
theorem blanked_normal (slot : Slot) (value : Value) :
    (blanked slot value).normal = blanked slot value.normal := by
  induction value using Value.by_parts generalizing slot with
  | atom value => rfl
  | list items inductionHypothesis =>
    rw [blanked, Value.normal, Value.normal, blanked, blanked_items, blanked_items,
      Value.normal_items, Value.normal_items, List.map_map, List.map_map]
    exact congrArg Value.list
      (List.map_congr_left fun item among => inductionHypothesis item among slot.within)
  | object members inductionHypothesis =>
    rw [blanked, Value.normal, Value.normal, blanked_of_members, blanked_members, blanked_members,
      Value.normal_members, Value.normal_members, List.map_map, List.map_map]
    refine congrArg Value.ofMembers (List.map_congr_left fun member among => ?_)
    refine congrArg (Prod.mk member.1) ?_
    simp only [blankedMember]
    split
    · rfl
    · exact inductionHypothesis member among (slot.under member.1)

/-! ## Expressions -/

/-- A list refers to no control exactly if none of its items does. -/
theorem plain_items_iff (items : List Value) :
    refersAmong items = false ↔ ∀ item ∈ items, refers item = false := by
  induction items with
  | nil => simp [refersAmong]
  | cons item rest inductionHypothesis =>
    rw [refersAmong, Bool.or_eq_false_iff, inductionHypothesis, List.forall_mem_cons]

/-- Members refer to no control exactly if none of them does, the effects set aside. -/
theorem plain_members_iff (members : List (String × Value)) :
    refersWithin members = false ↔
      ∀ member ∈ members, member.1 ≠ effectsMember → refers member.2 = false := by
  induction members with
  | nil => simp [refersWithin]
  | cons member rest inductionHypothesis =>
    obtain ⟨name, value⟩ := member
    rw [refersWithin, Bool.or_eq_false_iff, inductionHypothesis, List.forall_mem_cons]
    by_cases effects : name = effectsMember <;> simp [effects]

/-- An object is plain if its own expression is no reference and all its members are plain. -/
theorem plain_object_iff (members : List (String × Value)) :
    refers (.object members) = false ↔
      ((members.lookup "x").bind Value.text?).bind Reference.ofText? = none ∧
        ∀ member ∈ members, member.1 ≠ effectsMember → refers member.2 = false := by
  rw [refers, Bool.or_eq_false_iff, plain_members_iff, Option.isSome_eq_false_iff,
    Option.isNone_iff_eq_none]

/-- Blanking makes no expressions. -/
theorem blanked_plain (slot : Slot) {value : Value} (plain : refers value = false) :
    refers (blanked slot value) = false := by
  induction value using Value.by_parts generalizing slot with
  | atom value => rfl
  | list items inductionHypothesis =>
    rw [blanked, refers, blanked_items, plain_items_iff, List.forall_mem_map]
    exact fun item among =>
      inductionHypothesis item among _ ((plain_items_iff items).mp plain item among)
  | object members inductionHypothesis =>
    obtain ⟨noReference, each⟩ := (plain_object_iff members).mp plain
    rw [blanked, plain_object_iff, blanked_members_text slot members (by decide)]
    refine ⟨noReference, ?_⟩
    rw [blanked_members, List.forall_mem_map]
    intro member among noEffects
    change refers (blankedMember slot member) = false
    rw [blankedMember]
    split
    · rfl
    · exact inductionHypothesis member among _ (each member among noEffects)

/-- Where there are no expressions but in contents, replacing expressions changes contents only. -/
theorem blanked_resolve (root : Node S P) (slot : Slot) {value : Value}
    (plain : refers (blanked slot value) = false) :
    blanked slot (resolve root value) = blanked slot value := by
  induction value using Value.by_parts generalizing slot with
  | atom value => rfl
  | list items inductionHypothesis =>
    rw [blanked, refers, blanked_items, plain_items_iff, List.forall_mem_map] at plain
    rw [resolve, blanked, blanked, resolve_items, blanked_items, blanked_items, List.map_map]
    exact congrArg Value.list
      (List.map_congr_left fun item among => inductionHypothesis item among _ (plain item among))
  | object members inductionHypothesis =>
    rw [blanked, plain_object_iff, blanked_members_text slot members (by decide), blanked_members,
      List.forall_mem_map] at plain
    obtain ⟨noReference, each⟩ := plain
    -- An object has its expression beside its content, so it is not replaced as a whole.
    have stays : replacement? root members = none := by
      simp only [replacement?, Option.bind_eq_bind, ← Option.bind_assoc, noReference,
        Option.bind_none]
    rw [resolve, stays, blanked, blanked, resolve_members, blanked_members, blanked_members,
      List.map_map]
    refine congrArg Value.object (List.map_congr_left fun member among => ?_)
    refine congrArg (Prod.mk member.1) ?_
    have within := each member among
    simp only [blankedMember] at within ⊢
    split
    · rfl
    · next noContent =>
      rw [if_neg noContent] at within
      split
      · rfl
      · next noEffects =>
        exact inductionHypothesis member among _ (within (by simpa using noEffects))

/-- If an object is plain but for a slot, resolving it changes that slot at most. -/
theorem blanked_resolve_object (root : Node S P) (slot : Slot) {members : List (String × Value)}
    (plain : refers (blanked slot (.object members)) = false) :
    ∃ others, resolve root (.object members) = .object others ∧
      blankedMembers slot others = blankedMembers slot members := by
  have same := blanked_resolve root slot plain
  cases resolved : resolve root (.object members) with
  | object others =>
    rw [resolved] at same
    exact ⟨others, rfl, Value.object.inj same⟩
  | _ =>
    rw [resolved] at same
    nomatch same

end VectorMotion.Scene.Expression
