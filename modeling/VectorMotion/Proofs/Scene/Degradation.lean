import VectorMotion.Curve.ArcLength
import VectorMotion.Proofs.Json.Members
import VectorMotion.Proofs.Scene.Reference
import VectorMotion.Scalar.Floating

/-!
# Fragments that give no node

A layer or a shape that cannot be read, or is of a kind that is not drawn, is lost alone. The tree
of a document is the same with it and without it, numbers included, wherever it stands: among the
layers, among the shapes of a layer, or among the items of a group at any depth. For what stands
around it, it makes no difference either: a layer is read again with the shapes that are in it, a
group is read as a whole, but neither looks at the shapes themselves.

What is accepted gives one node each. The children of a container are those nodes in reverse, the
transforms in front.
-/

namespace VectorMotion.Scene

open Json

variable {S P : Type}

namespace Expression

/-- A fragment as it is when its shapes are built: its expressions are replaced, and it has been
read once as a value. -/
def settled (root : Node S P) (fragment : Value) : Value := (resolve root fragment).normal

/-- A list is resolved item by item. -/
theorem resolve_items (root : Node S P) (items : List Value) :
    resolveItems root items = items.map (resolve root) := by
  induction items with
  | nil => rfl
  | cons item rest inductionHypothesis =>
    rw [resolveItems, inductionHypothesis, List.map_cons]

/-- The members of an object are resolved each for itself, but for the effects. -/
theorem resolve_members (root : Node S P) (members : List (String × Value)) :
    resolveMembers root members = members.map fun member =>
      (member.1, if member.1 == effectsMember then member.2 else resolve root member.2) := by
  induction members with
  | nil => rfl
  | cons member rest inductionHypothesis =>
    rw [resolveMembers, inductionHypothesis, List.map_cons]

/-- Objects that agree but for one member, which is neither an expression nor defines effects, are
both replaced by the same value, or both stay and agree but for that member. -/
theorem resolve_apart (root : Node S P) (name : String) (noExpression : "x" ≠ name)
    (noEffects : name ≠ effectsMember) (related after : Value → Value → Prop)
    (keeps : ∀ first second, related first second →
      after (resolve root first) (resolve root second))
    {members others : List (String × Value)} (apart : Apart name related members others) :
    resolve root (.object members) = resolve root (.object others) ∨
      ∃ first second, resolve root (.object members) = .object first ∧
        resolve root (.object others) = .object second ∧ Apart name after first second := by
  have replaced : replacement? root members = replacement? root others := by
    rw [replacement?, replacement?, apart.lookup "x" noExpression]
  rw [resolve, resolve, replaced]
  cases replacement? root others with
  | some value => exact .inl rfl
  | none =>
    refine .inr ⟨_, _, rfl, rfl, ?_⟩
    rw [resolve_members, resolve_members]
    refine apart.map (fun called value =>
      if called == effectsMember then value else resolve root value) fun first second values => ?_
    rw [if_neg (by simpa using noEffects), if_neg (by simpa using noEffects)]
    exact keeps first second values

/-- A list is settled item by item. -/
theorem settled_list (root : Node S P) (items : List Value) :
    settled root (.list items) = .list (items.map (settled root)) := by
  rw [settled, resolve, Value.normal, resolve_items, Value.normal_items, List.map_map]
  rfl

/-- What agrees but for one member does so when it is settled. -/
theorem settled_apart (root : Node S P) (name : String) (noExpression : "x" ≠ name)
    (noEffects : name ≠ effectsMember) (related after : Value → Value → Prop)
    (keeps : ∀ first second, related first second →
      after (settled root first) (settled root second))
    {members others : List (String × Value)} (apart : Apart name related members others) :
    settled root (.object members) = settled root (.object others) ∨
      ∃ first second, settled root (.object members) = .object first ∧
        settled root (.object others) = .object second ∧ Apart name after first second := by
  rcases resolve_apart root name noExpression noEffects related
      (fun first second => after first.normal second.normal) keeps apart with
    same | ⟨first, second, firstResolved, secondResolved, resolved⟩
  · exact .inl (congrArg Value.normal same)
  · rw [settled, settled, firstResolved, secondResolved, Value.normal, Value.normal,
      Value.normal_members, Value.normal_members]
    exact .inr (resolved.map (fun _ => Value.normal) fun _ _ values => values).ordered

mutual
/-- Whether some object in a value refers to a slider. The effects of a layer do not count. -/
def refers : Value → Bool
  | .atom _ => false
  | .list items => refersAmong items
  | .object members =>
    (((members.lookup "x").bind Value.text?).bind Reference.ofText?).isSome || refersWithin members

/-- Whether some item refers to a slider. -/
def refersAmong : List Value → Bool
  | [] => false
  | item :: rest => refers item || refersAmong rest

/-- Whether some member refers to a slider. -/
def refersWithin : List (String × Value) → Bool
  | [] => false
  | (name, value) :: rest => (!name == effectsMember && refers value) || refersWithin rest
end

mutual
/-- What refers to no slider stays as it is. -/
theorem resolve_plain (root : Node S P) (value : Value) (plain : refers value = false) :
    resolve root value = value := by
  match value with
  | .atom value => rfl
  | .list items => exact congrArg Value.list (resolve_items_plain root items plain)
  | .object members =>
    obtain ⟨noReference, within⟩ := Bool.or_eq_false_iff.mp plain
    have reference : ((members.lookup "x").bind Value.text?).bind Reference.ofText? = none := by
      simpa using noReference
    have kept : replacement? root members = none := by
      simp only [replacement?, Option.bind_eq_bind, ← Option.bind_assoc, reference,
        Option.bind_none]
    rw [resolve, kept, resolve_members_plain root members within]

/-- A list that refers to no control is left as it is. -/
theorem resolve_items_plain (root : Node S P) (items : List Value)
    (plain : refersAmong items = false) : resolveItems root items = items := by
  match items with
  | [] => rfl
  | item :: rest =>
    obtain ⟨first, behind⟩ := Bool.or_eq_false_iff.mp plain
    rw [resolveItems, resolve_plain root item first, resolve_items_plain root rest behind]

/-- Members that refer to no control are left as they are. -/
theorem resolve_members_plain (root : Node S P) (members : List (String × Value))
    (plain : refersWithin members = false) : resolveMembers root members = members := by
  match members with
  | [] => rfl
  | (name, value) :: rest =>
    obtain ⟨first, behind⟩ := Bool.or_eq_false_iff.mp plain
    rw [resolveMembers, resolve_members_plain root rest behind]
    cases effects : name == effectsMember with
    | true => rfl
    | false =>
      rw [effects] at first
      rw [resolve_plain root value first]
      rfl
end

end Expression

/-- A list of fragments with one more, put in anywhere among them or among the items of an object
at any depth. -/
inductive Inserted (fragment : Value) : List Value → List Value → Prop where
  | here (before behind : List Value) :
      Inserted fragment (before ++ behind) (before ++ fragment :: behind)
  | deeper (before behind : List Value) (front back : List (String × Value))
      {items more : List Value} (inside : Inserted fragment items more) :
      Inserted fragment
        (before ++ .object (front ++ (Build.itemsMember, .list items) :: back) :: behind)
        (before ++ .object (front ++ (Build.itemsMember, .list more) :: back) :: behind)

namespace Build

variable [Scalar S]

/-- A record reads the same from objects that agree but for a member that none of its fields goes
by. -/
theorem read_apart {R : Type} (name called : String) (blank : R)
    (fields : List (Record.Field R)) (unread : fields.any (·.goesBy called) = false)
    {related : Value → Value → Prop} {members others : List (String × Value)}
    (apart : Apart called related members others) :
    read? (Record.decode name blank fields) (.object members) =
      read? (Record.decode name blank fields) (.object others) :=
  congrArg Except.toOption (Record.passed_over name called blank fields unread apart)

/-- No label is read from the items of a group or the shapes of a layer. -/
theorem label_apart {called : String} (contents : called = itemsMember ∨ called = "shapes")
    {related : Value → Value → Prop} {members others : List (String × Value)}
    (apart : Apart called related members others) :
    read? Document.Label.decode (.object members) =
      read? Document.Label.decode (.object others) :=
  read_apart _ called _ _ (by rcases contents with rfl | rfl <;> decide) apart

/-! ## Shapes -/

section Shapes

variable [Scalar P] [Widen S P] (settings : Trim.Settings)

/-- No shape is read from the items of a group. -/
theorem kind_apart (name tag : String) {related : Value → Value → Prop}
    {members others : List (String × Value)} (apart : Apart itemsMember related members others) :
    (kindOf settings name tag (.object members) : Option (Kind S P)) =
      kindOf settings name tag (.object others) := by
  unfold kindOf
  split
  case h_1 => rfl
  case h_12 => rfl
  all_goals exact congrArg (Option.map _) (read_apart _ _ _ _ rfl apart)

/-- Nor is a head. -/
theorem head_apart {related : Value → Value → Prop} {members others : List (String × Value)}
    (apart : Apart itemsMember related members others) (id : Nat) :
    (shapeHead settings (.object members) id : Option (Head × Kind S P)) =
      shapeHead settings (.object others) id := by
  have tags : (Value.object members).member? "ty" = (Value.object others).member? "ty" :=
    apart.lookup "ty" (by decide)
  rw [shapeHead, shapeHead, tags, label_apart (.inl rfl) apart]
  refine Option.bind_congr fun value _ => Option.bind_congr fun tag _ => ?_
  refine Option.bind_congr fun label _ => ?_
  simp only [kind_apart settings _ tag apart]

/-- The number changes nothing but the head. -/
theorem shape_head_number (fragment : Value) (id other : Nat) :
    (shapeHead settings fragment id : Option (Head × Kind S P)) =
      (shapeHead settings fragment other).map fun made => ({ made.1 with id }, made.2) := by
  simp only [shapeHead, Option.bind_eq_bind, Option.pure_def, Option.map_bind, Function.comp_def,
    Option.map_some]
  rfl

/-- Whether a fragment gives a node does not depend on the number of the node. -/
theorem shape_refused (fragment : Value) (next other : Nat)
    (refused : (shape settings fragment next : Option (Node S P × Nat)) = none) :
    (shape settings fragment other : Option (Node S P × Nat)) = none := by
  cases fragment with
  | object members =>
    have number := shape_head_number (S := S) (P := P) settings (.object members) next other
    rw [shape] at refused ⊢
    cases found : (shapeHead settings (.object members) other : Option (Head × Kind S P)) with
    | none => rfl
    | some made =>
      obtain ⟨head, kind⟩ := made
      rw [number, found] at refused
      cases kind <;> simp at refused
  | _ =>
    rw [shape]
    intro members same
    cases same

/-- Lists of shapes that give the same nodes, from whatever number on. -/
def SameShapes (first second : List Value) : Prop :=
  ∀ next, (shapes settings first next : List (Node S P) × Nat) = shapes settings second next

/-- What gives the same nodes does so behind other shapes. -/
theorem same_shapes_behind (before : List Value) {first second : List Value}
    (same : SameShapes (S := S) (P := P) settings first second) :
    SameShapes (S := S) (P := P) settings (before ++ first) (before ++ second) := by
  induction before with
  | nil => exact same
  | cons item rest inductionHypothesis =>
    intro next
    rw [List.cons_append, List.cons_append, shapes, shapes]
    cases (shape settings item next : Option (Node S P × Nat)) with
    | none => exact inductionHypothesis next
    | some made => simp only [inductionHypothesis made.2]

/-- Two lists of shapes, as values, that give the same nodes. -/
def SameLists (first second : Value) : Prop :=
  ∃ items more, first = .list items ∧ second = .list more ∧
    SameShapes (S := S) (P := P) settings items more

/-- The items of two groups give the same nodes if they agree but for lists that do. -/
theorem group_items_apart {members others : List (String × Value)}
    (apart : Apart itemsMember (SameLists (S := S) (P := P) settings) members others) (next : Nat) :
    (groupItems settings members next : List (Node S P) × Nat) =
      groupItems settings others next := by
  induction apart with
  | nil => rfl
  | @cons member other _ _ agree _ inductionHypothesis =>
    obtain ⟨name, value⟩ := member
    obtain ⟨_, replaced⟩ := other
    obtain ⟨rfl, same | ⟨-, items, more, first, second, same⟩⟩ := agree
    · obtain rfl : value = replaced := same
      cases value with
      | list items => rw [groupItems, groupItems, inductionHypothesis]
      | _ => simpa only [groupItems] using inductionHypothesis
    · obtain rfl : value = .list items := first
      obtain rfl : replaced = .list more := second
      rw [groupItems, groupItems, same next, inductionHypothesis]

/-- So do the groups, and so does any shape. -/
theorem shape_apart {members others : List (String × Value)}
    (apart : Apart itemsMember (SameLists (S := S) (P := P) settings) members others) (next : Nat) :
    (shape settings (.object members) next : Option (Node S P × Nat)) =
      shape settings (.object others) next := by
  rw [shape, shape, head_apart settings apart, group_items_apart settings apart]

/-- Where a fragment is refused, one more list of shapes with it gives the same nodes. -/
theorem inserted_same {root : Node S P} {fragment : Value}
    (refused : (shape settings (Expression.settled root fragment) 0 :
      Option (Node S P × Nat)) = none)
    {items more : List Value} (inserted : Inserted fragment items more) :
    SameShapes (S := S) (P := P) settings (items.map (Expression.settled root))
      (more.map (Expression.settled root)) := by
  induction inserted with
  | here before behind =>
    rw [List.map_append, List.map_append]
    refine same_shapes_behind settings _ fun next => ?_
    rw [List.map_cons, shapes, shape_refused settings _ 0 next refused]
  | @deeper before behind front back items more _ inductionHypothesis =>
    rw [List.map_append, List.map_append]
    refine same_shapes_behind settings _ fun next => ?_
    rw [List.map_cons, List.map_cons, shapes, shapes]
    suffices same : (shape settings (Expression.settled root
        (.object (front ++ (itemsMember, .list items) :: back))) next : Option (Node S P × Nat)) =
      shape settings (Expression.settled root
        (.object (front ++ (itemsMember, .list more) :: back))) next by rw [same]
    rcases Expression.settled_apart root itemsMember (by decide) (by decide)
        (fun first second => first = .list items ∧ second = .list more)
        (SameLists (S := S) (P := P) settings)
        (by
          rintro _ _ ⟨rfl, rfl⟩
          exact ⟨_, _, Expression.settled_list .., Expression.settled_list .., inductionHypothesis⟩)
        (.at_member ⟨rfl, rfl⟩ front back) with
      same | ⟨first, second, firstSettled, secondSettled, apart⟩
    · rw [same]
    · rw [firstSettled, secondSettled, shape_apart settings apart]

end Shapes

/-! ## Layers -/

section Layers

/-- A layer and the same layer with other shapes. -/
def Reshaped (related : List Value → List Value → Prop) (first second : Document.Layer S) : Prop :=
  ∃ shapes, second = { first with shapes } ∧ related first.shapes shapes

/-- Two lists, as values, of which the first and the second are related once they have been read. -/
def Relisted (related : List Value → List Value → Prop) (first second : Value) : Prop :=
  ∃ items more, first = .list items ∧ second = .list more ∧
    related (items.map Value.normal) (more.map Value.normal)

variable {related : List Value → List Value → Prop} (refl : ∀ shapes, related shapes shapes)

include refl

/-- Whatever a field of a layer reads, it puts into a layer with other shapes as well. -/
theorem reshaped_put : ∀ field ∈ Document.Layer.fields (S := S), ∀ source put,
    field.read source = .ok put → ∀ first second, Reshaped related first second →
      Reshaped related (put first) (put second) := by
  have shapes : ∀ source put, (Record.Field.of "shapes" (Decoder.list Source.toValue)
      fun shapes (record : Document.Layer S) => { record with shapes }).read source = .ok put →
      ∀ first second, Reshaped related first second → Reshaped related (put first) (put second) := by
    rintro source _ reads first _ ⟨_, rfl, -⟩
    obtain ⟨shapes, -, rfl⟩ := Record.Field.of_reads reads
    exact ⟨shapes, rfl, refl shapes⟩
  simp only [Document.Layer.fields, List.forall_mem_cons, List.not_mem_nil, IsEmpty.forall_iff,
    implies_true, and_true]
  refine ⟨?_, ?_, ?_, ?_, ?_, ?_, ?_, ?_, ?_, ?_, ?_, ?_, ?_, ?_, shapes⟩
  all_goals
    rintro source _ reads first _ ⟨shapes, rfl, same⟩
    obtain ⟨value, -, rfl⟩ := Record.Field.of_reads reads
    exact ⟨shapes, rfl, same⟩

/-- From a fragment with other shapes the same layer is read, with other shapes. -/
theorem layer_apart {members others : List (String × Value)}
    (apart : Apart "shapes" (Relisted related) members others) :
    Decoded.Alike (Reshaped (S := S) related) (Document.Layer.decode (.ofValue (.object members)))
      (Document.Layer.decode (.ofValue (.object others))) := by
  refine Record.alike_decoded _ _ _ _ _ _ ⟨_, rfl, refl _⟩ (reshaped_put refl) ?_ apart
  have shapes : ∀ value other, Relisted related value other →
      Decoded.Alike (fun put change => ∀ first second, Reshaped related first second →
          Reshaped related (put first) (change second))
        ((fun shapes (record : Document.Layer S) => { record with shapes }) <$>
          Decoder.list Source.toValue (.ofValue value))
        ((fun shapes (record : Document.Layer S) => { record with shapes }) <$>
          Decoder.list Source.toValue (.ofValue other)) := by
    rintro _ _ ⟨items, more, rfl, rfl, same⟩
    rw [Source.whole_list, Source.whole_list]
    rintro first _ ⟨_, rfl, -⟩
    exact ⟨more.map Value.normal, rfl, same⟩
  simp only [Document.Layer.fields, List.forall_mem_cons, List.not_mem_nil, IsEmpty.forall_iff,
    implies_true, and_true]
  refine ⟨?_, ?_, ?_, ?_, ?_, ?_, ?_, ?_, ?_, ?_, ?_, ?_, ?_, ?_, fun _ => shapes⟩
  all_goals exact fun goes => absurd goes Bool.false_ne_true

/-- So either none of them can be read, or both can. -/
theorem layer_read_apart {members others : List (String × Value)}
    (apart : Apart "shapes" (Relisted related) members others) :
    (read? (V := Document.Layer S) Document.Layer.decode (.object members) = none ∧
        read? (V := Document.Layer S) Document.Layer.decode (.object others) = none) ∨
      ∃ first second : Document.Layer S,
        read? Document.Layer.decode (.object members) = some first ∧
          read? Document.Layer.decode (.object others) = some second ∧
          Reshaped related first second := by
  have alike := layer_apart (S := S) refl apart
  rw [read?, read?, Decoder.ofValue, Decoder.ofValue]
  cases first : Document.Layer.decode (S := S) (.ofValue (.object members)) with
  | ok layer =>
    cases second : Document.Layer.decode (S := S) (.ofValue (.object others)) with
    | ok other => exact .inr ⟨layer, other, rfl, rfl, by rwa [first, second] at alike⟩
    | error misfit => rw [first, second] at alike; exact alike.elim
  | error misfit =>
    cases second : Document.Layer.decode (S := S) (.ofValue (.object others)) with
    | ok other => rw [first, second] at alike; exact alike.elim
    | error other => exact .inl ⟨rfl, rfl⟩

end Layers

section Documents

variable (workshop : Workshop S)

/-- The head of a layer is made without its shapes. -/
theorem layer_head_apart {members others : List (String × Value)}
    (apart : Apart "shapes" (Relisted fun _ _ => True) members others) (next : Nat) :
    (layerHead workshop (.object members) next : Option (Node S P × Nat)) =
      layerHead workshop (.object others) next := by
  rw [layerHead, layerHead, label_apart (.inr rfl) apart]
  refine Option.bind_congr fun label _ => ?_
  rcases layer_read_apart (S := S) (fun _ => trivial) apart with
    ⟨first, second⟩ | ⟨first, _, firstRead, secondRead, shapes, rfl, -⟩
  · rw [first, second]
  · rw [firstRead, secondRead]
    rfl

/-- Whether a fragment gives a layer does not depend on the number of the layer. -/
theorem layer_head_refused (fragment : Value) (next other : Nat)
    (refused : (layerHead workshop fragment next : Option (Node S P × Nat)) = none) :
    (layerHead workshop fragment other : Option (Node S P × Nat)) = none := by
  simp only [layerHead, Option.bind_eq_bind, Option.pure_def, Option.bind_eq_none_iff] at refused ⊢
  intro label labelRead authored layerRead kind known
  exact absurd (refused label labelRead authored layerRead kind known) (by simp)

/-- A layer that is refused takes no number. -/
theorem layer_heads_refused {fragment : Value} {any : Nat}
    (refused : (layerHead workshop fragment any : Option (Node S P × Nat)) = none)
    (before behind : List Value) (next : Nat) :
    (layerHeads workshop (before ++ fragment :: behind) next : List (Node S P × Value) × Nat) =
      layerHeads workshop (before ++ behind) next := by
  induction before generalizing next with
  | nil =>
    rw [List.nil_append, layerHeads, layer_head_refused workshop fragment any next refused,
      List.nil_append]
  | cons first rest inductionHypothesis =>
    simp only [List.cons_append, layerHeads, inductionHypothesis]

/-- Whether a fragment gives a layer. -/
def acceptsLayer (fragment : Value) : Bool :=
  (layerHead workshop fragment 0 : Option (Node S P × Nat)).isSome

/-- The first round makes a layer of every fragment that gives one, in the same order. -/
theorem layer_heads_given (fragments : List Value) (next : Nat) :
    let heads := (layerHeads workshop fragments next : List (Node S P × Value) × Nat).1
    heads.map Prod.snd = fragments.filter (acceptsLayer (P := P) workshop) ∧
      ∀ entry ∈ heads, ∃ next after, layerHead workshop entry.2 next = some (entry.1, after) := by
  induction fragments generalizing next with
  | nil => exact ⟨rfl, by simp [layerHeads]⟩
  | cons fragment rest inductionHypothesis =>
    cases built : (layerHead workshop fragment next : Option (Node S P × Nat)) with
    | none =>
      have refused : acceptsLayer (P := P) workshop fragment = false := by
        rw [acceptsLayer, layer_head_refused workshop fragment next 0 built]
        rfl
      rw [layerHeads, built, List.filter_cons, refused]
      exact inductionHypothesis next
    | some made =>
      obtain ⟨layer, after⟩ := made
      obtain ⟨fragments, given⟩ := inductionHypothesis after
      have accepted : acceptsLayer (P := P) workshop fragment = true := by
        rw [acceptsLayer, Option.isSome_iff_ne_none]
        intro refused
        rw [layer_head_refused workshop fragment 0 next refused] at built
        cases built
      rw [layerHeads, built, List.filter_cons, accepted]
      exact ⟨congrArg _ fragments, List.forall_mem_cons.mpr ⟨⟨next, after, built⟩, given⟩⟩

/-- The first round makes layers from fragments of the document. -/
theorem layer_heads_fragments (workshop : Workshop S) (layers : List Value) (next : Nat) :
    ∀ entry ∈ (layerHeads workshop layers next : List (Node S P × Value) × Nat).1,
      entry.2 ∈ layers := by
  intro entry member
  have listed := List.mem_map_of_mem (f := Prod.snd) member
  rw [(layer_heads_given workshop layers next).1] at listed
  exact List.mem_of_mem_filter listed

variable [Scalar P] [Widen S P]

/-- Two fragments from which the same layer is made, with the same contents. -/
structure SameFragments (first second : Value) : Prop where
  head : ∀ next, (layerHead workshop first next : Option (Node S P × Nat)) =
    layerHead workshop second next
  fill : ∀ (root layer : Node S P) next,
    fillLayer workshop layer (Expression.resolve root first) next =
      fillLayer workshop layer (Expression.resolve root second) next

/-- A layer is filled alike from fragments whose shapes give the same nodes. -/
theorem fill_layer_apart {members others : List (String × Value)}
    (apart : Apart "shapes" (Relisted (SameShapes (S := S) (P := P) workshop.settings))
      members others) (layer : Node S P) (next : Nat) :
    fillLayer workshop layer (.object members) next =
      fillLayer workshop layer (.object others) next := by
  rw [fillLayer, fillLayer]
  rcases layer_read_apart (S := S) (fun _ _ => rfl) apart with
    ⟨first, second⟩ | ⟨first, _, firstRead, secondRead, shapes, rfl, same⟩
  · rw [first, second]
  · rw [firstRead, secondRead]
    simp only [same next]

/-- A layer is the same with and without a fragment among its shapes, or below them, that is
refused. -/
theorem same_fragments {fragment : Value}
    (refused : ∀ root : Node S P, (shape workshop.settings (Expression.settled root fragment) 0 :
      Option (Node S P × Nat)) = none)
    {items more : List Value} (inserted : Inserted fragment items more)
    (front back : List (String × Value)) :
    SameFragments (P := P) workshop (.object (front ++ ("shapes", .list items) :: back))
      (.object (front ++ ("shapes", .list more) :: back)) := by
  constructor
  · exact layer_head_apart workshop (.at_member ⟨items, more, rfl, rfl, trivial⟩ front back)
  · intro root layer next
    rcases Expression.resolve_apart root "shapes" (by decide) (by decide)
        (fun first second => first = .list items ∧ second = .list more)
        (Relisted (SameShapes (S := S) (P := P) workshop.settings))
        (by
          rintro _ _ ⟨rfl, rfl⟩
          refine ⟨_, _, rfl, rfl, ?_⟩
          rw [Expression.resolve_items, Expression.resolve_items, List.map_map, List.map_map]
          exact inserted_same workshop.settings (refused root) inserted)
        (.at_member ⟨rfl, rfl⟩ front back) with
      same | ⟨first, second, firstResolved, secondResolved, apart⟩
    · rw [same]
    · rw [firstResolved, secondResolved, fill_layer_apart workshop apart]

/-- The first round makes the same layers, in front of fragments that are the same. -/
theorem layer_heads_same {layers others : List Value}
    (same : List.Forall₂ (SameFragments (S := S) (P := P) workshop) layers others) (next : Nat) :
    let first := (layerHeads workshop layers next : List (Node S P × Value) × Nat)
    let second := (layerHeads workshop others next : List (Node S P × Value) × Nat)
    first.2 = second.2 ∧ List.Forall₂ (fun entry other =>
      entry.1 = other.1 ∧ SameFragments (S := S) (P := P) workshop entry.2 other.2)
      first.1 second.1 := by
  induction same generalizing next with
  | nil => exact ⟨rfl, .nil⟩
  | cons fragments _ inductionHypothesis =>
    intro first second
    simp only [first, second, layerHeads, fragments.head next]
    split
    · obtain ⟨after, behind⟩ := inductionHypothesis _
      exact ⟨after, .cons ⟨rfl, fragments⟩ behind⟩
    · exact inductionHypothesis next

/-- The second round fills them alike. -/
theorem fill_layers_same {heads others : List (Node S P × Value)}
    (same : List.Forall₂ (fun entry other =>
      entry.1 = other.1 ∧ SameFragments (S := S) (P := P) workshop entry.2 other.2) heads others)
    (filled : List (Node S P)) (next : Nat) :
    fillLayers workshop filled heads next = fillLayers workshop filled others next := by
  induction same generalizing filled next with
  | nil => rfl
  | @cons entry other heads others agree behind inductionHypothesis =>
    obtain ⟨layer, fragment⟩ := entry
    obtain ⟨_, replaced⟩ := other
    obtain ⟨rfl, fragments⟩ := agree
    have nodes : heads.map (·.1) = others.map (·.1) := by
      clear inductionHypothesis
      induction behind with
      | nil => rfl
      | cons agree _ inductionHypothesis =>
        rw [List.map_cons, List.map_cons, agree.1, inductionHypothesis]
    simp only [fillLayers, nodes, fragments.fill, inductionHypothesis]

/-- Fragments that are the same give the same root. -/
theorem document_same {layers others : List Value}
    (same : List.Forall₂ (SameFragments (S := S) (P := P) workshop) layers others) :
    (document workshop layers : Node S P × Nat) = document workshop others := by
  obtain ⟨next, heads⟩ := layer_heads_same workshop same 1
  simp only [document, next, fill_layers_same workshop heads]

/-- One fragment among others can be replaced by one that is the same. -/
theorem document_replaced {first second : Value}
    (same : SameFragments (S := S) (P := P) workshop first second) (before behind : List Value) :
    (document workshop (before ++ first :: behind) : Node S P × Nat) =
      document workshop (before ++ second :: behind) := by
  have others (values : List Value) :
      List.Forall₂ (SameFragments (S := S) (P := P) workshop) values values :=
    List.forall₂_same.mpr fun _ _ => ⟨fun _ => rfl, fun _ _ _ => rfl⟩
  exact document_same workshop (List.rel_append (others before) (.cons same (others behind)))

/-- A layer that is refused leaves the root as it is without it. -/
theorem document_refused {fragment : Value} {any : Nat}
    (refused : (layerHead workshop fragment any : Option (Node S P × Nat)) = none)
    (before behind : List Value) :
    (document workshop (before ++ fragment :: behind) : Node S P × Nat) =
      document workshop (before ++ behind) := by
  simp only [document, layer_heads_refused workshop refused before behind]

/-- A shape that is refused, on a layer or below, leaves the root as it is without it. -/
theorem document_inserted {fragment : Value}
    (refused : ∀ root : Node S P, (shape workshop.settings (Expression.settled root fragment) 0 :
      Option (Node S P × Nat)) = none)
    {items more : List Value} (inserted : Inserted fragment items more)
    (front back : List (String × Value)) (before behind : List Value) :
    (document workshop (before ++ .object (front ++ ("shapes", .list more) :: back) :: behind) :
        Node S P × Nat) =
      document workshop (before ++ .object (front ++ ("shapes", .list items) :: back) :: behind) :=
  (document_replaced workshop (same_fragments workshop refused inserted front back) before
    behind).symm

end Documents

/-! ## Containers -/

section Containers

variable [Scalar P] [Widen S P] (settings : Trim.Settings)

/-- Whether a fragment gives a node. -/
def accepts (fragment : Value) : Bool :=
  (shape settings fragment 0 : Option (Node S P × Nat)).isSome

/-- Whether a fragment is tagged as the transform of what it stands among. -/
def hasTransformTag (fragment : Value) : Bool :=
  (fragment.member? "ty").bind Value.text? == some "tr"

/-- The children of a container are the nodes of the fragments that are accepted, each of one. They
stand in reverse, the transforms in front. -/
def Arranged (items : List Value) (children : List (Node S P)) : Prop :=
  ∃ made : List (Value × Node S P),
    made.map Prod.fst = items.filter (accepts (S := S) (P := P) settings) ∧
    (∀ entry ∈ made, ∃ next after, shape settings entry.1 next = some (entry.2, after)) ∧
    children = (made.filter fun entry => hasTransformTag entry.1).reverse.map Prod.snd ++
      (made.filter fun entry => !hasTransformTag entry.1).reverse.map Prod.snd

/-- The shapes of which items are the list under the items of a group. -/
def itemsOf : List (String × Value) → List Value
  | [] => []
  | (name, .list items) :: rest => if name == itemsMember then items else itemsOf rest
  | _ :: rest => itemsOf rest

/-- The shapes of a group are read from its list of items, and none if it has no such list. -/
theorem group_items_of (members : List (String × Value)) (next : Nat) :
    (groupItems settings members next : List (Node S P) × Nat) =
      shapes settings (itemsOf members) next := by
  induction members using itemsOf.induct with
  | case1 => rfl
  | case2 name items rest isItems => simp only [groupItems, itemsOf, isItems, ↓reduceIte]
  | case3 name items rest noItems inductionHypothesis =>
    simpa only [groupItems, itemsOf, noItems, Bool.false_eq_true, ↓reduceIte]
      using inductionHypothesis
  | case4 first rest noList inductionHypothesis =>
    obtain ⟨name, value⟩ := first
    cases value with
    | list items => exact absurd rfl (noList name items)
    | _ => simpa only [groupItems, itemsOf] using inductionHypothesis

/-- A shape that is accepted has a head, and a group has the nodes of its items. -/
theorem shape_parts (fragment : Value) (next after : Nat) (node : Node S P)
    (built : shape settings fragment next = some (node, after)) :
    ∃ members head, fragment = .object members ∧
      shapeHead settings fragment next = some (head, node.kind) ∧
      ∀ group, node.kind = .group group → node.children =
        arranged (shapes settings (itemsOf members) (next + 1) : List (Node S P) × Nat).1 := by
  cases fragment with
  | object members =>
    rw [shape] at built
    cases found : (shapeHead settings (.object members) next : Option (Head × Kind S P)) with
    | none => simp [found] at built
    | some made =>
      obtain ⟨head, kind⟩ := made
      refine ⟨members, head, rfl, ?_⟩
      cases kind
      case group group =>
        simp only [found, group_items_of, Option.some.injEq, Prod.mk.injEq] at built
        obtain ⟨rfl, -⟩ := built
        exact ⟨rfl, fun _ _ => rfl⟩
      all_goals
        simp only [found, Option.some.injEq, Prod.mk.injEq] at built
        obtain ⟨rfl, -⟩ := built
        refine ⟨rfl, fun group same => ?_⟩
        cases same
  | _ => simp [shape] at built

/-- Transforms are what is tagged so. -/
theorem kind_transform (name tag : String) (fragment : Value) (kind : Kind S P)
    (known : kindOf settings name tag fragment = some kind) :
    kind.isTransform = (tag == "tr") := by
  unfold kindOf at known
  split at known
  case h_1 =>
    obtain rfl := Option.some.inj known
    rfl
  case h_12 => nomatch known
  all_goals
    obtain ⟨authored, -, rfl⟩ := Option.map_eq_some_iff.mp known
    rfl

/-- A node is a transform exactly if its fragment has the tag of one. -/
theorem shape_transform (fragment : Value) (next after : Nat) (node : Node S P)
    (built : shape settings fragment next = some (node, after)) :
    node.kind.isTransform = hasTransformTag fragment := by
  obtain ⟨members, head, rfl, found, -⟩ := shape_parts settings fragment next after node built
  simp only [shapeHead, Option.bind_eq_bind, Option.bind_eq_some_iff, Option.pure_def,
    Option.some.injEq, Prod.mk.injEq] at found
  obtain ⟨value, tagged, tag, isText, _, -, kind, known, -, rfl⟩ := found
  rw [kind_transform settings _ tag _ _ known, hasTransformTag, tagged, Option.bind_some, isText]
  rfl

/-- Each fragment that is accepted gives a node, in the order of the document. -/
theorem shapes_made (items : List Value) (next : Nat) :
    ∃ made : List (Value × Node S P),
      made.map Prod.fst = items.filter (accepts (S := S) (P := P) settings) ∧
      (∀ entry ∈ made, ∃ next after, shape settings entry.1 next = some (entry.2, after)) ∧
      (shapes settings items next : List (Node S P) × Nat).1 = made.map Prod.snd := by
  induction items generalizing next with
  | nil => exact ⟨[], rfl, by simp, rfl⟩
  | cons item rest inductionHypothesis =>
    cases built : (shape settings item next : Option (Node S P × Nat)) with
    | none =>
      obtain ⟨made, accepted, each, nodes⟩ := inductionHypothesis next
      have refused : accepts (S := S) (P := P) settings item = false := by
        rw [accepts, shape_refused settings item next 0 built]
        rfl
      refine ⟨made, ?_, each, by simp only [shapes, built, nodes]⟩
      rw [accepted, List.filter_cons, refused]
      rfl
    | some first =>
      obtain ⟨node, after⟩ := first
      obtain ⟨made, accepted, each, nodes⟩ := inductionHypothesis after
      have taken : accepts (S := S) (P := P) settings item = true := by
        rw [accepts, Option.isSome_iff_ne_none]
        intro refused
        rw [shape_refused settings item 0 next refused] at built
        cases built
      refine ⟨(item, node) :: made, ?_, List.forall_mem_cons.mpr ⟨⟨next, after, built⟩, each⟩, ?_⟩
      · rw [List.map_cons, accepted, List.filter_cons, taken]
        rfl
      · simp only [shapes, built, nodes, List.map_cons]

/-- The children of a container are what has been accepted for it. -/
theorem contents_arranged (items : List Value) (next : Nat) :
    Arranged settings items
      (arranged (shapes settings items next : List (Node S P) × Nat).1) := by
  obtain ⟨made, accepted, each, nodes⟩ := shapes_made (S := S) (P := P) settings items next
  refine ⟨made, accepted, each, ?_⟩
  have tags : ∀ entry ∈ made, entry.2.kind.isTransform = hasTransformTag entry.1 := by
    intro entry member
    obtain ⟨next, after, built⟩ := each entry member
    exact shape_transform settings entry.1 next after entry.2 built
  have kept (keep : Bool → Bool) :
      (made.map Prod.snd).reverse.filter (fun node => keep node.kind.isTransform) =
        (made.filter fun entry => keep (hasTransformTag entry.1)).reverse.map Prod.snd := by
    have same : made.filter ((fun node => keep node.kind.isTransform) ∘ Prod.snd) =
        made.filter fun entry => keep (hasTransformTag entry.1) :=
      List.filter_congr fun entry member => congrArg keep (tags entry member)
    rw [List.filter_reverse, List.filter_map, List.map_reverse, same]
  rw [arranged, nodes]
  exact congrArg₂ (· ++ ·) (kept id) (kept not)

/-- The children of a layer are what has been accepted of its shapes. -/
theorem fill_layer_arranged (workshop : Workshop S) (layer : Node S P) (fragment : Value)
    (next : Nat) (empty : layer.children = []) :
    let filled := (fillLayer workshop layer fragment next).1
    (read? (V := Document.Layer S) Document.Layer.decode fragment = none ∧ filled.children = []) ∨
      ∃ authored : Document.Layer S, read? Document.Layer.decode fragment = some authored ∧
        Arranged workshop.settings authored.shapes filled.children := by
  intro filled
  cases readable : read? (V := Document.Layer S) Document.Layer.decode fragment with
  | none =>
    refine .inl ⟨rfl, ?_⟩
    simp only [filled, fillLayer, readable, empty]
  | some authored =>
    refine .inr ⟨authored, rfl, ?_⟩
    have children : filled.children =
        arranged (shapes workshop.settings authored.shapes next : List (Node S P) × Nat).1 := by
      simp only [filled, fillLayer, readable]
      cases layer
      rfl
    rw [children]
    exact contents_arranged workshop.settings authored.shapes next

/-- A layer that has been filled in from a fragment, of which the expressions have been looked up
from a root. Its children are what has been accepted of the shapes that are there then; a fragment
that cannot be read any more gives it none. -/
structure FilledFrom (workshop : Workshop S) (ground : Node S P) (fragment : Value)
    (bare layer : Node S P) : Prop where
  head : layer.head = bare.head
  effects : layer.effects = bare.effects
  contents : (read? (V := Document.Layer S) Document.Layer.decode
        (Expression.resolve ground fragment) = none ∧ layer.children = []) ∨
      ∃ authored : Document.Layer S,
        read? Document.Layer.decode (Expression.resolve ground fragment) = some authored ∧
          Arranged workshop.settings authored.shapes layer.children

/-- Layers that have been filled in one after the other, each from the fragment that has given it.
Expressions are looked up among the layers as they are by then: those that are `done`, which have
their contents, and those that are still bare. -/
inductive FilledLayers (workshop : Workshop S) :
    List (Node S P) → List Value → List (Node S P) → List (Node S P) → Prop where
  | none (done : List (Node S P)) : FilledLayers workshop done [] [] []
  | next (done : List (Node S P)) (fragment : Value) (fragments : List Value)
      (bare layer : Node S P) (others layers : List (Node S P))
      (given : ∃ next after, layerHead workshop fragment next = some (bare, after))
      (filled : FilledFrom workshop (rootWith (done ++ bare :: others)) fragment bare layer)
      (rest : FilledLayers workshop (done ++ [layer]) fragments others layers) :
      FilledLayers workshop done (fragment :: fragments) (bare :: others) (layer :: layers)

/-- A layer is filled in from its fragment. -/
theorem fill_layer_from (workshop : Workshop S) (ground layer : Node S P) (fragment : Value)
    (next : Nat) (empty : layer.children = []) :
    FilledFrom workshop ground fragment layer
      (fillLayer workshop layer (Expression.resolve ground fragment) next).1 := by
  refine ⟨?_, ?_, fill_layer_arranged workshop layer _ next empty⟩
  all_goals
    unfold fillLayer
    split
    · rfl
    · obtain ⟨head, kind, effects, children⟩ := layer
      rfl

/-- The second round fills in every layer from its own fragment. -/
theorem fill_layers_from (workshop : Workshop S) (heads : List (Node S P × Value))
    (done : List (Node S P)) (next : Nat) (empty : ∀ entry ∈ heads, entry.1.children = [])
    (given : ∀ entry ∈ heads, ∃ next after,
      layerHead workshop entry.2 next = some (entry.1, after)) :
    ∃ filled, (fillLayers workshop done heads next).1 = done ++ filled ∧
      FilledLayers workshop done (heads.map Prod.snd) (heads.map Prod.fst) filled := by
  induction heads generalizing done next with
  | nil => exact ⟨[], by simp [fillLayers], .none done⟩
  | cons entry rest inductionHypothesis =>
    obtain ⟨layer, fragment⟩ := entry
    obtain ⟨firstEmpty, restEmpty⟩ := List.forall_mem_cons.mp empty
    obtain ⟨firstGiven, restGiven⟩ := List.forall_mem_cons.mp given
    let ground := rootWith (done ++ layer :: rest.map (·.1))
    let made := fillLayer workshop layer (Expression.resolve ground fragment) next
    obtain ⟨filled, whole, others⟩ :=
      inductionHypothesis (done ++ [made.1]) made.2 restEmpty restGiven
    refine ⟨made.1 :: filled, ?_, .next done fragment _ layer made.1 _ filled firstGiven ?_ others⟩
    · rw [List.append_cons]
      exact whole
    · exact fill_layer_from workshop ground layer fragment next firstEmpty

/-- The layers of a document are those that its fragments give, each filled in from its own. -/
theorem layers_filled (workshop : Workshop S) (fragments : List Value) :
    ∃ bare filled : List (Node S P),
      (document workshop fragments : Node S P × Nat).1.children.Perm filled ∧
        FilledLayers workshop [] (fragments.filter (acceptsLayer (P := P) workshop)) bare
          filled := by
  let heads := (layerHeads workshop fragments 1 : List (Node S P × Value) × Nat)
  obtain ⟨accepted, given⟩ := layer_heads_given (P := P) workshop fragments 1
  obtain ⟨filled, whole, layers⟩ := fill_layers_from workshop heads.1 [] heads.2
    (layer_heads_numbered workshop fragments 1).2 given
  refine ⟨heads.1.map Prod.fst, filled, ?_, accepted ▸ layers⟩
  rw [List.nil_append] at whole
  exact whole ▸ (mattes_first_perm _).trans (List.reverse_perm _)

end Containers

end Build

variable [Scalar S] [Scalar P] [Widen S P]

/-- A fragment that gives no node leaves no trace. A layer that is refused, anywhere in a document,
gives the tree without it, numbers included; so does a shape that is refused whatever its references
mean, among the shapes of a layer or among the items of a group at any depth. A fragment of a
document that refers to nothing is read as it stands.

What is accepted gives one node each. The layers are those that the accepted fragments give, each
filled in from its own, with its expressions looked up among the layers as they are by then. The
children of every layer and every group are the nodes of its own items that are accepted, in reverse,
those tagged as transforms in front. -/
theorem refused_fragments_traceless (settings : Trim.Settings) (document : Document S) :
    let workshop : Workshop S := ⟨settings, document.assets⟩
    let tree (layers : List Value) : Tree S P := Tree.ofDocument settings { document with layers }
    (∀ before behind fragment,
      (Build.layerHead workshop fragment 0 : Option (Node S P × Nat)) = none →
        tree (before ++ fragment :: behind) = tree (before ++ behind)) ∧
    (∀ before behind front back items more fragment, Inserted fragment items more →
      (∀ root : Node S P, (Build.shape settings (Expression.settled root fragment) 0 :
        Option (Node S P × Nat)) = none) →
        tree (before ++ .object (front ++ ("shapes", .list more) :: back) :: behind) =
          tree (before ++ .object (front ++ ("shapes", .list items) :: back) :: behind)) ∧
    (∀ source fragment, Source.toValue source = .ok fragment →
      Expression.refers fragment = false → ∀ root : Node S P,
        Expression.resolve root fragment = fragment ∧
          Expression.settled root fragment = fragment) ∧
    (∃ bare filled : List (Node S P), (tree document.layers).root.children.Perm filled ∧
      Build.FilledLayers workshop []
        (document.layers.filter (Build.acceptsLayer (P := P) workshop)) bare filled) ∧
    ∀ members next (node : Node S P) after,
      Build.shape settings (.object members) next = some (node, after) →
        ∀ group, node.kind = .group group →
          Build.Arranged settings (Build.itemsOf members) node.children := by
  intro workshop tree
  have same_tree {first second : List Value}
      (same : (Build.document workshop first : Node S P × Nat) = Build.document workshop second) :
      tree first = tree second :=
    congrArg (fun made : Node S P × Nat => ({ root := made.1, next := made.2 } : Tree S P)) same
  refine ⟨?_, ?_, ?_, Build.layers_filled workshop document.layers, ?_⟩
  · exact fun before behind fragment refused =>
      same_tree (Build.document_refused workshop refused before behind)
  · exact fun before behind front back items more fragment inserted refused =>
      same_tree (Build.document_inserted workshop refused inserted front back before behind)
  · intro source fragment read plain root
    have kept := Expression.resolve_plain root fragment plain
    exact ⟨kept, by rw [Expression.settled, kept, Source.normal_whole source fragment read]⟩
  · intro members next node after built group isGroup
    obtain ⟨_, head, same, -, items⟩ := Build.shape_parts settings _ next after node built
    obtain rfl := Value.object.inj same
    rw [items group isGroup]
    exact Build.contents_arranged settings _ _

/-- A layer with a rectangle and a group with a fill and more items. -/
def groupedLayer (more : List Value) : Value :=
  let fill : Value := .object [("ty", .text "fl")]
  let group : Value := .object [("it", .list (fill :: more)), ("ty", .text "gr")]
  .object [("op", .natural 60), ("shapes", .list [.object [("ty", .text "rc")], group]),
    ("ty", .natural 4)]

/-- A star is not drawn. In a group in front of a transform, behind a layer of text, which is not
drawn either, both leave no trace; the numbers and the order of the others stay. Two layers around
them keep their own contents. -/
theorem star_and_text_traceless :
    let star : Value := .object [("ty", .text "sr")]
    let transform : Value := .object [("ty", .text "tr")]
    let text : Value := .object [("ty", .natural 5)]
    let tree (layers : List Value) : Tree Float32 Float := Tree.ofDocument {}
      { inPoint := 0, outPoint := 60, frameRate := 30, layers }
    tree [text, groupedLayer [star, transform]] = tree [groupedLayer [transform]] ∧
      (tree [text, groupedLayer [star, transform]]).root.numbers = [0, 1, 3, 5, 4, 2] ∧
      (tree [groupedLayer [star, transform], text, groupedLayer [star]]).root.numbers =
        [0, 2, 8, 9, 7, 1, 4, 6, 5, 3] := by
  intro star transform text tree
  let document : Document Float32 :=
    { inPoint := 0, outPoint := 60, frameRate := 30,
      layers := [groupedLayer [transform], groupedLayer [star, transform]] }
  obtain ⟨layers, shapes, plain, -, -⟩ :=
    refused_fragments_traceless (P := Float) {} document
  have noLayer :
      tree [text, groupedLayer [star, transform]] = tree [groupedLayer [star, transform]] :=
    layers [] [groupedLayer [star, transform]] text (by decide +kernel)
  have noShape : tree [groupedLayer [star, transform]] = tree [groupedLayer [transform]] := by
    refine shapes [] [] [("op", .natural 60)] [("ty", .natural 4)] _ _ star
      (.deeper [.object [("ty", .text "rc")]] [] [] [("ty", .text "gr")]
        (.here [.object [("ty", .text "fl")]] [transform])) fun root => ?_
    rw [(plain (.ofValue star) star rfl rfl root).2]
    decide +kernel
  exact ⟨noLayer.trans noShape, by decide +kernel, by decide +kernel⟩

end VectorMotion.Scene
