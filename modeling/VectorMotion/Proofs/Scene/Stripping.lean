import VectorMotion.Proofs.Scene.Resolution

/-!
# Fragments without their expressions

A fragment can be built with its expressions replaced, or without them. What comes of it need not be
the same. Where a property is due, an expression may be replaced by another property: what holds the
property can then be read both times. Where anything else is due it need not be, for what has been
authored for a slider is read as a property and as nothing else. So it is said of a fragment slot
by slot, from the layer down to its properties, that expressions are replaced only where a property
is due.
-/

namespace VectorMotion.Scene.Expression

open Json

variable {S P : Type}

/-- Whether a member is an expression that refers to a slider. -/
def isReference (member : String × Value) : Bool :=
  member.1 == "x" && (member.2.text?.bind Reference.ofText?).isSome

/-- A member that is a reference is a text under the name of expressions. -/
theorem reference_text {member : String × Value} (lost : isReference member = true) :
    ∃ text, member = ("x", .text text) := by
  obtain ⟨name, value⟩ := member
  simp only [isReference, Bool.and_eq_true, beq_iff_eq, Option.isSome_iff_exists,
    Option.bind_eq_some_iff] at lost
  obtain ⟨rfl, reference, text, isText, -⟩ := lost
  cases value with
  | atom atom =>
    cases atom with
    | text text => exact ⟨text, rfl⟩
    | _ => nomatch isText
  | _ => nomatch isText

mutual
/-- A value without the expressions that refer to sliders, wherever they stand. -/
def stripped : Value → Value
  | .atom value => .atom value
  | .list items => .list (strippedItems items)
  | .object members => .object (strippedMembers members)

/-- Items without their expressions. -/
def strippedItems : List Value → List Value
  | [] => []
  | item :: rest => stripped item :: strippedItems rest

/-- Members without the expressions among them and below them. -/
def strippedMembers : List (String × Value) → List (String × Value)
  | [] => []
  | (name, value) :: rest =>
    if isReference (name, value) then strippedMembers rest
    else (name, stripped value) :: strippedMembers rest
end

/-- Items are stripped one by one. -/
theorem stripped_items (items : List Value) : strippedItems items = items.map stripped := by
  induction items with
  | nil => rfl
  | cons item rest inductionHypothesis =>
    rw [strippedItems, inductionHypothesis, List.map_cons]

/-- Of the members those that are references go, and the values of the others are stripped. -/
theorem stripped_members (members : List (String × Value)) :
    strippedMembers members = (members.filter fun member => !isReference member).map
      fun member => (member.1, stripped member.2) := by
  induction members with
  | nil => rfl
  | cons member rest inductionHypothesis =>
    obtain ⟨name, value⟩ := member
    rw [strippedMembers, List.filter_cons]
    cases isReference (name, value) with
    | true => simpa using inductionHypothesis
    | false => simp [inductionHypothesis]

/-- What stands under another name than that of an expression is still there. -/
theorem stripped_members_lookup (members : List (String × Value)) {name : String}
    (noExpression : name ≠ "x") :
    (strippedMembers members).lookup name = (members.lookup name).map stripped := by
  induction members with
  | nil => rfl
  | cons member rest inductionHypothesis =>
    obtain ⟨called, value⟩ := member
    rw [strippedMembers, List.lookup_cons]
    cases lost : isReference (called, value) with
    | true =>
      obtain ⟨text, same⟩ := reference_text lost
      obtain ⟨rfl, -⟩ := Prod.mk.inj same
      rw [if_pos rfl, inductionHypothesis, show (name == "x") = false by simpa using noExpression]
    | false =>
      rw [if_neg Bool.false_ne_true, List.lookup_cons, inductionHypothesis]
      cases name == called <;> rfl

/-- An object is left without an expression. -/
theorem stripped_reference (members : List (String × Value)) :
    (((strippedMembers members).lookup "x").bind Value.text?).bind Reference.ofText? = none := by
  induction members with
  | nil => rfl
  | cons member rest inductionHypothesis =>
    obtain ⟨name, value⟩ := member
    rw [strippedMembers]
    cases lost : isReference (name, value) with
    | true => exact inductionHypothesis
    | false =>
      rw [if_neg Bool.false_ne_true, List.lookup_cons]
      cases named : "x" == name with
      | false => exact inductionHypothesis
      | true =>
        obtain rfl : "x" = name := eq_of_beq named
        have same : (stripped value).text? = value.text? := by cases value <;> rfl
        rw [Option.bind_some, same]
        simpa [isReference] using lost

mutual
/-- Nothing refers to a slider any more. -/
theorem stripped_plain (value : Value) : refers (stripped value) = false := by
  match value with
  | .atom value => rfl
  | .list items => exact stripped_items_plain items
  | .object members =>
    rw [stripped, refers, stripped_reference members, stripped_members_plain members]
    rfl

/-- Nothing refers to a slider among items that have been stripped. -/
theorem stripped_items_plain (items : List Value) :
    refersAmong (strippedItems items) = false := by
  match items with
  | [] => rfl
  | item :: rest =>
    rw [strippedItems, refersAmong, stripped_plain item, stripped_items_plain rest]
    rfl

/-- Nothing refers to a slider within members that have been stripped. -/
theorem stripped_members_plain (members : List (String × Value)) :
    refersWithin (strippedMembers members) = false := by
  match members with
  | [] => rfl
  | (name, value) :: rest =>
    rw [strippedMembers]
    split
    · exact stripped_members_plain rest
    · rw [refersWithin, stripped_plain value, stripped_members_plain rest, Bool.and_false]
      rfl
end

/-- What is in normal form stays so without its expressions. -/
theorem stripped_normal {value : Value} (normal : value.normal = value) :
    (stripped value).normal = stripped value := by
  induction value using Value.by_parts with
  | atom value => rfl
  | list items inductionHypothesis =>
    rw [stripped, stripped_items, Value.normal_list_iff, List.forall_mem_map]
    intro item among
    exact inductionHypothesis item among ((Value.normal_list_iff items).mp normal item among)
  | object members inductionHypothesis =>
    obtain ⟨ascending, each⟩ := (Value.normal_object_iff members).mp normal
    rw [stripped, stripped_members, Value.normal_object_iff, List.forall_mem_map]
    constructor
    · exact List.pairwise_map.mpr (ascending.filter _)
    · intro member among
      have inside := List.mem_of_mem_filter among
      exact inductionHypothesis member inside (each member inside)

/-- A value in normal form, and the value without its expressions. -/
def Bared (value other : Value) : Prop := value.normal = value ∧ other = stripped value

/-- Everything that has been authored for a slider is in normal form. -/
def Tidy (root : Node S P) : Prop :=
  ∀ reference authored, authored? root reference = some authored → authored.normal = authored

/-- Marking a value in its normal form leaves it in one. -/
theorem marked_normal {authored : Value} (normal : authored.normal = authored) :
    (marked authored).normal = marked authored := by
  cases authored with
  | object members =>
    obtain ⟨ascending, each⟩ := (Value.normal_object_iff members).mp normal
    refine (Value.normal_object_iff _).mpr ⟨Value.insert_ascending ascending .., ?_⟩
    intro member among
    rcases Value.mem_insert among with rfl | standing
    · rfl
    · exact each member standing
  | _ => exact normal

/-- Under a tidy root expressions are replaced by values in their normal form. -/
theorem Tidy.replaced {root : Node S P} (tidy : Tidy root) {members : List (String × Value)}
    {other : Value} (replaced : replacement? root members = some other) :
    other.normal = other := by
  obtain ⟨text, authored, -, refers, rfl⟩ := (replacement_iff root members other).mp replaced
  obtain ⟨reference, -, means⟩ := Option.bind_eq_some_iff.mp refers
  exact marked_normal (tidy reference authored means)

/-- What is in normal form stays so when its expressions are replaced. -/
theorem Tidy.resolved {root : Node S P} (tidy : Tidy root) {value : Value}
    (normal : value.normal = value) : (resolve root value).normal = resolve root value := by
  induction value using Value.by_parts with
  | atom value => rfl
  | list items inductionHypothesis =>
    rw [resolve, resolve_items, Value.normal_list_iff, List.forall_mem_map]
    intro item among
    exact inductionHypothesis item among ((Value.normal_list_iff items).mp normal item among)
  | object members inductionHypothesis =>
    obtain ⟨ascending, each⟩ := (Value.normal_object_iff members).mp normal
    rw [resolve]
    split
    · next other replaced => exact tidy.replaced replaced
    · rw [resolve_members, Value.normal_object_iff, List.forall_mem_map]
      refine ⟨List.pairwise_map.mpr ascending, fun member among => ?_⟩
      have whole := each member among
      split
      · exact whole
      · exact inductionHypothesis member among whole

/-! ## Where expressions may stand -/

/-- What a value is read as where it stands in a layer. -/
inductive Slot where
  | layer
  /-- The shapes of a layer, or the items of a group. -/
  | contents
  | shape
  /-- A record of properties: a transform, the step of a repeater, the table of a gradient, or an
  entry of a dash pattern. -/
  | record
  /-- The entries of a dash pattern. -/
  | dashes
  /-- A property, or something that is no record at all. -/
  | property
  deriving Repr, DecidableEq, Inhabited

namespace Slot

/-- The slot of a member with a name. -/
def under : Slot → String → Slot
  | layer, "ks" => record
  | layer, "shapes" => contents
  | shape, "it" => contents
  | shape, "tr" | shape, "g" => record
  | shape, "d" => dashes
  | _, _ => property

/-- The slot of an item. -/
def within : Slot → Slot
  | contents => shape
  | dashes => record
  | _ => property

end Slot

section

variable [Scalar S] (root : Node S P)

/-- Whether a value can be read as a property. -/
def isProperty (S : Type) [Scalar S] (value : Value) : Bool :=
  (read? (Document.Amount.decode (S := S)) value).isSome

mutual
/-- Whether expressions are replaced only where a property is due, and only by a property where
there has been one. -/
def suits (slot : Slot) : Value → Bool
  | .atom _ => true
  | .list items => suitsAmong slot.within items
  | .object members =>
    match replacement? root members with
    | some other =>
      slot == .property && isProperty S other && isProperty S (stripped (.object members))
    | none => suitsWithin slot members

/-- Whether this holds of all items, for a slot. -/
def suitsAmong (slot : Slot) : List Value → Bool
  | [] => true
  | item :: rest => suits slot item && suitsAmong slot rest

/-- Whether this holds of all members, for the slots under their names. The effects of a layer have
no expressions replaced. -/
def suitsWithin (slot : Slot) : List (String × Value) → Bool
  | [] => true
  | (name, value) :: rest =>
    (name == effectsMember || suits (slot.under name) value) && suitsWithin slot rest
end

/-- Items suit a place together if each of them does. -/
theorem suits_among (slot : Slot) (items : List Value) :
    suitsAmong root slot items = true ↔ ∀ item ∈ items, suits root slot item = true := by
  induction items with
  | nil => simp [suitsAmong]
  | cons item rest inductionHypothesis =>
    rw [suitsAmong, Bool.and_eq_true, inductionHypothesis, List.forall_mem_cons]

/-- Members suit a place together if each of them does, but for those that define effects. -/
theorem suits_within (slot : Slot) (members : List (String × Value)) :
    suitsWithin root slot members = true ↔ ∀ member ∈ members, member.1 ≠ effectsMember →
      suits root (slot.under member.1) member.2 = true := by
  induction members with
  | nil => simp [suitsWithin]
  | cons member rest inductionHypothesis =>
    obtain ⟨name, value⟩ := member
    rw [suitsWithin, Bool.and_eq_true, inductionHypothesis, List.forall_mem_cons, Bool.or_eq_true,
      beq_iff_eq, or_iff_not_imp_left]

end

/-! ## Where nothing is referred to -/

section

variable {root : Node S P} (silent : ∀ reference, authored? root reference = none)
include silent

/-- Where references mean nothing, nothing is replaced. -/
theorem no_replacement (members : List (String × Value)) : replacement? root members = none := by
  refine Option.eq_none_iff_forall_ne_some.mpr fun other replaced => ?_
  obtain ⟨text, authored, -, refers, -⟩ := (replacement_iff root members other).mp replaced
  obtain ⟨reference, -, means⟩ := Option.bind_eq_some_iff.mp refers
  simp [silent reference] at means

/-- A root under which references mean nothing is tidy. -/
theorem Tidy.of_silent : Tidy root := by
  intro reference authored means
  simp [silent reference] at means

/-- No expression is replaced. -/
theorem resolve_silent (value : Value) : resolve root value = value := by
  induction value using Value.by_parts with
  | atom value => rfl
  | list items inductionHypothesis =>
    exact (unchanged_finish root).list items inductionHypothesis
  | object members inductionHypothesis =>
    exact (unchanged_finish root).object members (no_replacement silent members)
      fun member among _ => inductionHypothesis member among

/-- Under such a root every value suits every place. -/
theorem suits_silent [Scalar S] (slot : Slot) (value : Value) : suits root slot value = true := by
  induction value using Value.by_parts generalizing slot with
  | atom value => rfl
  | list items inductionHypothesis =>
    exact (suits_among ..).mpr fun item among => inductionHypothesis item among _
  | object members inductionHypothesis =>
    rw [suits, no_replacement silent]
    exact (suits_within ..).mpr fun member among _ => inductionHypothesis member among _

end

end VectorMotion.Scene.Expression
