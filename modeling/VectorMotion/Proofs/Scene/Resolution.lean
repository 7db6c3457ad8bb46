import VectorMotion.Proofs.Scene.Degradation

/-!
# One pass over the expressions of a fragment

Expressions are replaced from the outside in, once. What is put in place of an expression is not
looked at again, so it may carry an expression itself: a slider that has been authored with an
expression on another slider hands that expression on. Whether one pass is enough therefore depends
on what has been authored for the sliders that can be referred to, and on nothing else.

Two readings of "enough" are settled by one law. A second pass changes nothing, or, which is more,
no object is left that a pass over it would replace by another. Either holds of every fragment if
and only if it holds of everything that is put in place of an expression, and none of that is the
text of an expression that refers to something. Such a text would become an expression of the object
around the one that it replaces.
-/

namespace VectorMotion.Json.Value

/-- What is put among members is there. -/
theorem inserted_mem (name : String) (value : Value) (members : List (String × Value)) :
    (name, value) ∈ insertMember name value members := by
  induction members with
  | nil => exact List.mem_cons_self
  | cons member rest inductionHypothesis =>
    obtain ⟨other, old⟩ := member
    rw [insertMember]
    split_ifs
    · exact List.mem_cons_self
    · exact List.mem_cons_self
    · exact List.mem_cons_of_mem _ inductionHypothesis

end VectorMotion.Json.Value

namespace VectorMotion.Scene.Expression

open Json

variable {S P : Type}

/-! ## What a pass leaves behind -/

/-- What has been authored for the slider that a text refers to, if it is an expression that refers
to one. -/
def referred? (root : Node S P) (text : String) : Option Value :=
  (Reference.ofText? text).bind (authored? root)

/-- An object is replaced by what its expression refers to. -/
theorem replacement_iff (root : Node S P) (members : List (String × Value)) (other : Value) :
    replacement? root members = some other ↔ ∃ text authored,
      members.lookup "x" = some (.text text) ∧ referred? root text = some authored ∧
        other = marked authored := by
  have text_iff (value : Value) (text : String) : value.text? = some text ↔ value = .text text := by
    unfold Value.text?
    split <;> simp_all [Value.text]
  simp only [replacement?, referred?, Option.bind_eq_bind, Option.pure_def,
    Option.bind_eq_some_iff, Option.some.injEq, text_iff]
  constructor
  · rintro ⟨value, standing, text, rfl, reference, isReference, authored, means, rfl⟩
    exact ⟨text, authored, standing, ⟨reference, isReference, means⟩, rfl⟩
  · rintro ⟨text, authored, standing, ⟨reference, isReference, means⟩, rfl⟩
    exact ⟨_, standing, text, rfl, reference, isReference, authored, means, rfl⟩

/-- A text comes out of a pass as it was, or an expression has referred to it. -/
theorem resolve_text {root : Node S P} {value : Value} {other : String}
    (resolved : resolve root value = .text other) :
    value = .text other ∨ ∃ text, referred? root text = some (.text other) := by
  cases value with
  | atom value => exact .inl resolved
  | list items => nomatch resolved
  | object members =>
    rw [resolve] at resolved
    cases replaced : replacement? root members with
    | none =>
      rw [replaced] at resolved
      nomatch resolved
    | some value =>
      rw [replaced] at resolved
      obtain rfl : value = .text other := resolved
      obtain ⟨text, authored, -, refers, same⟩ := (replacement_iff root members _).mp replaced
      cases authored with
      | atom value =>
        obtain rfl := Value.atom.inj same
        exact .inr ⟨text, refers⟩
      | list items => nomatch same
      | object members => nomatch same

/-- What is put in place of an expression is not an object with nothing but an expression: it says
that it has been put there. -/
theorem marked_not_alone (authored value : Value) : marked authored ≠ .object [("x", value)] := by
  cases authored with
  | atom _ => nofun
  | list _ => nofun
  | object members =>
    intro same
    have stands := Value.inserted_mem "fromExpression" (.boolean true) members
    rw [Value.object.inj same] at stands
    simp at stands

/-- What stands under a name has been gone over once a pass has gone over the members, but for the
effects of layers. -/
theorem resolve_members_lookup (root : Node S P) (members : List (String × Value)) {name : String}
    (noEffects : name ≠ effectsMember) :
    (resolveMembers root members).lookup name = (members.lookup name).map (resolve root) := by
  induction members with
  | nil => rfl
  | cons member rest inductionHypothesis =>
    obtain ⟨called, value⟩ := member
    rw [resolveMembers, List.lookup_cons, List.lookup_cons, inductionHypothesis]
    cases named : name == called with
    | false => rfl
    | true =>
      obtain rfl : name = called := eq_of_beq named
      rw [if_neg (by simpa using noEffects)]
      rfl

/-- A value with an object in it, outside of the effects of layers, that a pass over the object
would replace by another. -/
inductive Unresolved (root : Node S P) : Value → Prop where
  | here {members : List (String × Value)} {other : Value}
      (replaced : replacement? root members = some other) (differs : other ≠ .object members) :
      Unresolved root (.object members)
  | item {items : List Value} (item : Value) (among : item ∈ items)
      (inside : Unresolved root item) : Unresolved root (.list items)
  | member {members : List (String × Value)} (member : String × Value) (among : member ∈ members)
      (noEffects : member.1 ≠ effectsMember) (inside : Unresolved root member.2) :
      Unresolved root (.object members)

/-! ## When one pass is enough -/

/-- What it takes to say of values that nothing is left to replace in them. It holds of a value that
is not replaced if it holds of the parts, and of no object that would be replaced by another. -/
structure Finish (root : Node S P) (finished : Value → Prop) : Prop where
  atom : ∀ value, finished (.atom value)
  list : ∀ items, (∀ item ∈ items, finished item) → finished (.list items)
  object : ∀ members, replacement? root members = none →
    (∀ member ∈ members, member.1 ≠ effectsMember → finished member.2) → finished (.object members)
  changed : ∀ members other, replacement? root members = some other → finished (.object members) →
    other = .object members

/-- That a pass changes nothing. -/
theorem unchanged_finish (root : Node S P) :
    Finish root fun value => resolve root value = value where
  atom _ := rfl
  list items each := by
    rw [resolve, resolve_items, List.map_congr_left each, List.map_id']
  object members stays each := by
    rw [resolve, stays, resolve_members]
    refine congrArg Value.object ((List.map_congr_left fun member among => ?_).trans
      (List.map_id members))
    obtain ⟨name, value⟩ := member
    by_cases effects : name = effectsMember
    · simp [effects]
    · simp [effects, each _ among effects]
  changed members other replaced same := by
    rwa [resolve, replaced] at same

/-- That no object is left to be replaced. -/
theorem none_left_finish (root : Node S P) : Finish root fun value => ¬Unresolved root value where
  atom _ := nofun
  list items each := by
    rintro ⟨⟩
    case item item inside among => exact each item among inside
  object members stays each := by
    rintro ⟨⟩
    case here other replaced differs => simp [stays] at replaced
    case member member noEffects inside among => exact each member among noEffects inside
  changed members other replaced none := not_not.mp fun differs => none (.here replaced differs)

/-- Where no object is left to be replaced, a pass changes nothing. -/
theorem resolve_unchanged (root : Node S P) (value : Value) :
    ¬Unresolved root value → resolve root value = value := by
  induction value using Value.by_parts with
  | atom value => exact fun _ => rfl
  | list items inductionHypothesis =>
    intro none
    exact (unchanged_finish root).list items fun item among =>
      inductionHypothesis item among fun inside => none (.item item among inside)
  | object members inductionHypothesis =>
    intro none
    cases replaced : replacement? root members with
    | some other =>
      rw [resolve, replaced]
      exact (none_left_finish root).changed members other replaced none
    | none =>
      exact (unchanged_finish root).object members replaced fun member among noEffects =>
        inductionHypothesis member among fun inside => none (.member member among noEffects inside)

/-- Whatever is put in place of an expression is finished, and is not the text of another expression
that refers to something. -/
def Conclusive (root : Node S P) (finished : Value → Prop) : Prop :=
  ∀ text authored, referred? root text = some authored →
    finished (marked authored) ∧ ∀ other, authored = .text other → referred? root other = none

section

variable {root : Node S P} {finished : Value → Prop} (finish : Finish root finished)
include finish

/-- What a pass gives is finished where all that it puts in is. An object that stays has no
expression afterwards either: what stands under its `x` was no text that refers to something, and
has not been replaced by one. -/
theorem resolve_finishes (conclusive : Conclusive root finished) (value : Value) :
    finished (resolve root value) := by
  induction value using Value.by_parts with
  | atom value => exact finish.atom value
  | list items inductionHypothesis =>
    rw [resolve, resolve_items]
    exact finish.list _ (List.forall_mem_map.mpr inductionHypothesis)
  | object members inductionHypothesis =>
    rw [resolve]
    cases replaced : replacement? root members with
    | some other =>
      obtain ⟨text, authored, -, refers, rfl⟩ := (replacement_iff root members other).mp replaced
      exact (conclusive text authored refers).1
    | none =>
      refine finish.object _ ?_ ?_
      · refine Option.eq_none_iff_forall_ne_some.mpr fun other again => ?_
        obtain ⟨text, authored, standing, refers, rfl⟩ := (replacement_iff root _ other).mp again
        rw [resolve_members_lookup root members (by decide), Option.map_eq_some_iff] at standing
        obtain ⟨value, stood, resolved⟩ := standing
        rcases resolve_text resolved with rfl | ⟨outer, refersOuter⟩
        · have known := (replacement_iff root members _).mpr ⟨text, authored, stood, refers, rfl⟩
          simp [replaced] at known
        · have silent := (conclusive outer _ refersOuter).2 text rfl
          simp [silent] at refers
      · rw [resolve_members]
        refine List.forall_mem_map.mpr fun member among noEffects => ?_
        simpa [show member.1 ≠ effectsMember from noEffects]
          using inductionHypothesis member among

/-- A pass finishes every value just in case what it puts in is conclusive. Two values show that
this is needed: an object with nothing but an expression, and an object that has such an object for
its expression. -/
theorem resolve_finishes_iff :
    (∀ value, finished (resolve root value)) ↔ Conclusive root finished := by
  refine ⟨fun each text authored refers => ⟨?_, ?_⟩, resolve_finishes finish⟩
  · have replaced : replacement? root [("x", .text text)] = some (marked authored) :=
      (replacement_iff ..).mpr ⟨text, authored, rfl, refers, rfl⟩
    have alone := each (.object [("x", .text text)])
    rwa [resolve, replaced] at alone
  · rintro other rfl
    have inner : resolve root (.object [("x", .text text)]) = .text other := by
      have replaced : replacement? root [("x", .text text)] = some (.text other) :=
        (replacement_iff ..).mpr ⟨text, .text other, rfl, refers, rfl⟩
      rw [resolve, replaced]
    have outer : resolve root (.object [("x", .object [("x", .text text)])]) =
        .object [("x", .text other)] := by
      rw [resolve, show replacement? root [("x", .object [("x", .text text)])] = none from rfl,
        resolveMembers, inner]
      rfl
    have nested := each (.object [("x", .object [("x", .text text)])])
    rw [outer] at nested
    refine Option.eq_none_iff_forall_ne_some.mpr fun authored means => ?_
    exact marked_not_alone authored _ (finish.changed _ _
      ((replacement_iff ..).mpr ⟨other, authored, rfl, means, rfl⟩) nested)

end

/-- One pass is enough for every fragment just in case what can be put in place of an expression is
left alone by a pass, and is not the text of an expression that refers to something in turn. The
same holds if one pass is to leave no object that a pass over it would replace by another. Where
none is left, another pass changes nothing. -/
theorem one_pass_enough_iff (root : Node S P) :
    ((∀ value, resolve root (resolve root value) = resolve root value) ↔
      Conclusive root fun value => resolve root value = value) ∧
    ((∀ value, ¬Unresolved root (resolve root value)) ↔
      Conclusive root fun value => ¬Unresolved root value) ∧
    ∀ value, ¬Unresolved root value → resolve root value = value :=
  ⟨resolve_finishes_iff (unchanged_finish root), resolve_finishes_iff (none_left_finish root),
    resolve_unchanged root⟩

/-- A layer with two sliders on one effect. The first has been authored with an expression on the
second. -/
def chainedSliders : Value :=
  let slider (name : String) (authored : List (String × Value)) : Value :=
    .object [("nm", .text name), ("ty", .natural 0), ("v", .object authored)]
  .object [("ef", .list [.object [
      ("ef", .list [
        slider "A" [("k", .natural 1), ("x", .text "effect('E')('B')")],
        slider "B" [("k", .natural 7)]]),
      ("nm", .text "E"), ("ty", .natural 5)]]),
    ("nm", .text "L"), ("op", .natural 60), ("ty", .natural 4)]

/-- One pass puts in the value of the first slider and leaves its expression; a second pass would
put in that of the second. -/
theorem chained_sliders_left :
    let root := (Tree.ofDocument {}
      { inPoint := 0, outPoint := 60, frameRate := 30, layers := [chainedSliders] } :
      Tree Float32 Float).root
    let fragment : Value := .object [("x", .text "effect('E')('A')")]
    resolve root (resolve root fragment) ≠ resolve root fragment ∧
      Unresolved root (resolve root fragment) := by
  intro root fragment
  let expressed (value : Value) : Bool := (value.member? "x").isSome
  have once : expressed (resolve root fragment) = true := by decide +kernel
  have twice : expressed (resolve root (resolve root fragment)) = false := by decide +kernel
  have differs : resolve root (resolve root fragment) ≠ resolve root fragment := fun same => by
    rw [same, once] at twice
    cases twice
  exact ⟨differs, not_not.mp fun none => differs (resolve_unchanged root _ none)⟩

end VectorMotion.Scene.Expression
