import VectorMotion.Proofs.Arena.Reading

/-!
# Building a scene cell by cell

Each function that adds cells does to an arena what its counterpart does for a tree. Of the cells
that were there before, only the one of the parent changes, and that only by being given more
children; behind them stand the cells of the new nodes. So what has been built already stays as it
is, and what an arena has gained can be followed from one step to the next.

While a group is filled in, its cell stands in the arena already, with the children that have been
added so far. The list of children is put in order once all of them are there, and so are the
layers of a document after the last of them has been filled in.
-/

namespace VectorMotion.Scene

open Json

variable {S P : Type}

/-- The cell with more children, behind the others. -/
def Cell.extend (listed : List Nat) (cell : Cell S P) : Cell S P :=
  { cell with children := cell.children ++ listed }

/-- A cell that gets no further children stays as it is. -/
@[simp] theorem Cell.extend_nothing : (Cell.extend [] : Cell S P → Cell S P) = id := by
  funext cell
  simp [extend]

/-- Children that are added one list after the other are added as one list. -/
theorem Cell.extend_extend (first second : List Nat) (cell : Cell S P) :
    (cell.extend first).extend second = cell.extend (first ++ second) := by
  simp [extend]

/-- Nodes that have taken the numbers below another are as many as that number says. -/
theorem Numbered.room {root : Node S P} {next : Nat} (numbered : Numbered 0 [root] next) :
    root.listing.length = next := by
  simpa [Node.numbers] using numbered.taken.all.length_eq

namespace Arena

/-- An arena after cells have been added: of the cells before, only that of the parent is another
one, which has more children. -/
structure Extends (parent : Nat) (listed : List Nat) (before after : Arena S P) : Prop where
  inside : parent < before.length
  longer : before.length ≤ after.length
  owner : after[parent]? = before[parent]?.map (Cell.extend listed)
  others : ∀ id < before.length, id ≠ parent → after[id]? = before[id]?

/-- An arena after nodes have been added under a parent, some of them as its children. -/
structure Added (parent : Nat) (listed : List Nat) (nodes : List (Node S P))
    (before after : Arena S P) : Prop extends Extends parent listed before after where
  held : ∀ node ∈ nodes, after.Holds (some parent) node
  numbered : Numbered before.length nodes after.length

/-- An arena after nodes that have been built have been added as the children of a parent. -/
structure Received (parent : Nat) (made : List (Node S P) × Nat) (before after : Arena S P) :
    Prop where
  size : after.length = made.2
  added : Added parent (made.1.map Node.id) made.1 before after

section Growth

variable {parent : Nat} {listed : List Nat} {before after : Arena S P}

/-- What is added below a cell that is new itself changes nothing that was there before. -/
theorem Extends.below {start : Arena S P} {owner : Nat} {inner : List Nat}
    (begun : Extends parent listed before start) (fresh : before.length ≤ owner)
    (continued : Extends owner inner start after) : Extends parent listed before after := by
  have apart (id : Nat) (old : id < before.length) : after[id]? = start[id]? :=
    continued.others id (Nat.lt_of_lt_of_le old begun.longer) (by omega)
  refine ⟨begun.inside, begun.longer.trans continued.longer, ?_, fun id old other => ?_⟩
  · rw [apart parent begun.inside, begun.owner]
  · rw [apart id old, begun.others id old other]

/-- Changing a cell that is new changes nothing that was there before. -/
theorem Extends.changed {final : Arena S P} {owner : Nat}
    (continued : Extends parent listed before after) (fresh : before.length ≤ owner)
    (size : final.length = after.length)
    (kept : ∀ other, other ≠ owner → final[other]? = after[other]?) :
    Extends parent listed before final := by
  refine ⟨continued.inside, size ▸ continued.longer, ?_, fun id old other => ?_⟩
  · rw [kept parent (by have := continued.inside; omega), continued.owner]
  · rw [kept id (by omega), continued.others id old other]

/-- Nothing is added at first. -/
theorem Added.none (arena : Arena S P) (inside : parent < arena.length) :
    Added parent [] [] arena arena :=
  ⟨⟨inside, Nat.le_refl _, by simp, fun _ _ _ => rfl⟩, by simp, .none _⟩

/-- Nodes are added one after the other. -/
theorem Added.append {final : Arena S P} {more : List Nat} {first second : List (Node S P)}
    (begun : Added parent listed first before after)
    (continued : Added parent more second after final) :
    Added parent (listed ++ more) (first ++ second) before final := by
  have inside := begun.inside
  refine ⟨⟨inside, begun.longer.trans continued.longer, ?_, fun id old other => ?_⟩,
    fun node member => ?_, begun.numbered.append continued.numbered⟩
  · rw [continued.owner, begun.owner, Option.map_map]
    exact congrArg (Option.map · _) (funext (Cell.extend_extend listed more))
  · rw [continued.others id (Nat.lt_of_lt_of_le old begun.longer) other, begun.others id old other]
  · rcases List.mem_append.mp member with early | late
    · refine (begun.held node early).kept fun id among => ?_
      have bounds := begun.numbered.within early among
      exact continued.others id bounds.2 (by omega)
    · exact continued.held node late

/-- A node is added with its own cell first, then with all that is below it, and at last perhaps
with another list of its children. -/
theorem Added.whole {start final : Arena S P} {inner : List Nat} {node : Node S P}
    {parts : List (Node S P)} (begun : Extends parent listed before start)
    (one : start.length = before.length + 1) (own : node.id = before.length)
    (below : Added before.length inner parts start after) (same : node.parts.Perm parts)
    (size : final.length = after.length)
    (kept : ∀ other, other ≠ before.length → final[other]? = after[other]?)
    (stands : final[before.length]? = some (Placed.cell ⟨some parent, node⟩)) :
    Added parent listed [node] before final := by
  refine ⟨(begun.below (Nat.le_refl _) below.toExtends).changed (Nat.le_refl _) size kept, ?_, ?_⟩
  · refine List.forall_mem_singleton.mpr ((holds_iff ..).mpr ⟨own ▸ stands, fun part member => ?_⟩)
    have among := same.mem_iff.mp member
    refine own ▸ (below.held part among).kept fun id inside => kept id ?_
    have bounds := below.numbered.within among inside
    omega
  · rw [size]
    exact .node node own (one ▸ below.numbered.perm same)

/-- A node without parts is added with its cell. -/
theorem Added.leaf {head : Head} {kind : Kind S P} (begun : Extends parent listed before after)
    (one : after.length = before.length + 1) (own : head.id = before.length)
    (stands : after[before.length]? = some (Placed.cell ⟨some parent, .mk head kind [] []⟩)) :
    Added parent listed [.mk head kind [] []] before after :=
  .whole begun one own (.none after (by omega)) (.refl _) rfl (fun _ _ => rfl) stands

/-- A node that has been added as a child is listed by its number. -/
theorem Received.one {node : Node S P} {last : Nat} (own : node.id = before.length)
    (added : Added parent [before.length] [node] before after) (size : after.length = last) :
    Received parent ([node], last) before after := by
  rw [← own] at added
  exact ⟨size, added⟩

end Growth

section Cells

variable (parent : Nat) (cell : Cell S P) (arena : Arena S P)

/-- A node that is attached gets the next free place. -/
@[simp] theorem attach_place : (attach parent cell arena).2 = arena.length := rfl

/-- A node that is appended gets the next free place. -/
@[simp] theorem append_place : (append parent cell arena).2 = arena.length := rfl

/-- Attaching a node adds one cell to the arena. -/
@[simp] theorem attach_length : (attach parent cell arena).1.length = arena.length + 1 := by
  simp [attach]

/-- Appending a node adds one cell to the arena. -/
@[simp] theorem append_length : (append parent cell arena).1.length = arena.length + 1 := by
  simp [append, attach]

/-- A cell that is attached stands at its place and belongs to the parent. -/
theorem attach_own :
    (attach parent cell arena).1[arena.length]? = some { cell with parent := some parent } := by
  simp [attach]

/-- Attaching a cell changes no other. -/
theorem attach_extends (inside : parent < arena.length) :
    Extends parent [] arena (attach parent cell arena).1 := by
  have before (id : Nat) (old : id < arena.length) :
      (attach parent cell arena).1[id]? = arena[id]? := List.getElem?_append_left old
  exact ⟨inside, by simp, by simp [before parent inside], fun id old _ => before id old⟩

/-- A cell that is appended stands at its place and belongs to the parent. -/
theorem append_own (inside : parent < arena.length) :
    (append parent cell arena).1[arena.length]? = some { cell with parent := some parent } := by
  show ((attach parent cell arena).1.modify parent _)[arena.length]? = _
  rw [List.getElem?_modify_ne _ _ (Nat.ne_of_lt inside), attach_own]

/-- A cell that is appended is the last child of the parent. -/
theorem append_extends (inside : parent < arena.length) :
    Extends parent [arena.length] arena (append parent cell arena).1 := by
  have attached := attach_extends parent cell arena inside
  refine ⟨inside, by simp, ?_, fun id old other => ?_⟩
  · show ((attach parent cell arena).1.modify parent _)[parent]? = _
    rw [List.getElem?_modify_eq, attached.owner]
    simp only [Option.map_eq_map, Option.map_map]
    exact congrArg (Option.map · _) (funext fun cell => by simp [Cell.push, Cell.extend])
  · show ((attach parent cell arena).1.modify parent _)[id]? = _
    rw [List.getElem?_modify_ne _ _ other.symm, attached.others id old other]

end Cells

/-! ## Order of children -/

/-- In a list that is sorted by a property what does not have it stands in front. -/
theorem sorted_filters {α : Type} (behind : α → Bool) (items : List α)
    (sorted : items.Pairwise fun first second => behind first ≤ behind second) :
    items = items.filter (fun item => !behind item) ++ items.filter behind := by
  induction items with
  | nil => rfl
  | cons first rest inductionHypothesis =>
    obtain ⟨least, restSorted⟩ := List.pairwise_cons.mp sorted
    cases property : behind first with
    | false => simpa [property] using inductionHypothesis restSorted
    | true =>
      have all : ∀ item ∈ first :: rest, behind item = true :=
        List.forall_mem_cons.mpr ⟨property, fun item member =>
          Bool.eq_true_of_true_le (property ▸ least item member)⟩
      have none : (first :: rest).filter (fun item => !behind item) = [] :=
        List.filter_eq_nil_iff.mpr fun item member => by simp [all item member]
      rw [none, List.filter_eq_self.mpr all, List.nil_append]

/-- Sorting by a property puts what does not have it in front and keeps the order otherwise. -/
theorem sorted_by {α : Type} (behind : α → Bool) (items : List α) :
    items.mergeSort (fun first second => decide (behind first ≤ behind second)) =
      items.filter (fun item => !behind item) ++ items.filter behind := by
  set compare := fun first second => decide (behind first ≤ behind second)
  have transitive (a b c : α) (first : compare a b = true) (second : compare b c = true) :
      compare a c = true :=
    decide_eq_true ((of_decide_eq_true first).trans (of_decide_eq_true second))
  have total (a b : α) : (compare a b || compare b a) = true := by
    simpa [compare] using Bool.le_total (behind a) (behind b)
  have sorted := List.pairwise_mergeSort transitive total items
  -- Both halves are sublists of the sorted list, and nothing else is in it.
  have half (keep : α → Bool) (level : ∀ a b, keep a → keep b → compare a b = true) :
      (items.mergeSort compare).filter keep = items.filter keep := by
    have leveled : (items.filter keep).Pairwise fun a b => compare a b = true :=
      List.pairwise_of_forall_mem_list fun a first b second =>
        level a b (List.of_mem_filter first) (List.of_mem_filter second)
    have within := (List.sublist_mergeSort transitive total leveled
      List.filter_sublist).filter keep
    rw [List.filter_filter] at within
    simp only [Bool.and_self] at within
    have permuted := (List.mergeSort_perm items compare).filter keep
    exact (within.eq_of_length permuted.length_eq.symm).symm
  rw [sorted_filters behind _ (sorted.imp fun below => of_decide_eq_true below), half, half]
  · intro a b first second
    simp [compare, first, second]
  · intro a b first second
    simp_all [compare]

/-- The children of a cell are put in the order in which those of the node are. -/
theorem arranged_places (nodes : List (Node S P)) (behind : Nat → Bool)
    (tells : ∀ node ∈ nodes, behind node.id = !node.kind.isTransform) :
    ((nodes.map Node.id).reverse.mergeSort fun first second =>
      decide (behind first ≤ behind second)) = (arranged nodes).map Node.id := by
  have tells (node : Node S P) (member : node ∈ nodes.reverse) :
      behind node.id = !node.kind.isTransform := tells node (List.mem_reverse.mp member)
  rw [sorted_by, ← List.map_reverse, List.filter_map, List.filter_map, ← List.map_append, arranged]
  have inFront := List.filter_congr fun node member => congrArg (!·) (tells node member)
  have after := List.filter_congr tells
  simp only [Bool.not_not] at inFront
  exact congrArg _ (congrArg₂ (· ++ ·) inFront after)

section Arranging

variable (id : Nat) (arena : Arena S P)

/-- Bringing the children of a cell in order adds no cell. -/
@[simp] theorem arrange_length : (arrange id arena).length = arena.length :=
  List.length_modify ..

/-- Putting the children of a cell in order changes no other cell. -/
theorem arrange_apart {other : Nat} (different : other ≠ id) :
    (arrange id arena)[other]? = arena[other]? :=
  List.getElem?_modify_ne _ _ different.symm

/-- The cell itself has its children in order then. -/
theorem arrange_own {cell : Cell S P} (own : arena[id]? = some cell) {nodes : List (Node S P)}
    (children : cell.children = nodes.map Node.id)
    (held : ∀ node ∈ nodes, arena.Holds (some id) node) :
    (arrange id arena)[id]? = some (cell.withChildren ((arranged nodes).map Node.id)) := by
  have tells (node : Node S P) (member : node ∈ nodes) :
      (arena[node.id]?.all fun cell => !cell.kind.isTransform) = !node.kind.isTransform := by
    rw [((holds_iff ..).mp (held node member)).1]
    rfl
  have listed : childrenAt id arena = nodes.map Node.id := by
    simp [childrenAt, own, children]
  rw [arrange, List.getElem?_modify_eq, own, listed]
  exact congrArg some (congrArg (Cell.withChildren · cell) (arranged_places nodes _ tells))

end Arranging

/-! ## Shapes -/

section Shapes

variable [Scalar S] [Scalar P] [Widen S P]

/-- Adding shapes under a parent gives the cells of the nodes that are built, each in its place, and
lists them as children of the parent. -/
theorem shapes_added (settings : Trim.Settings) :
    (∀ fragment next, ∀ parent (arena : Arena S P), arena.length = next → parent < next →
      (Build.shape settings fragment next = (none : Option (Node S P × Nat)) →
        addShape settings parent fragment arena = (arena, none)) ∧
      ∀ (node : Node S P) after, Build.shape settings fragment next = some (node, after) →
        ∃ later, addShape settings parent fragment arena = (later, some node.id) ∧
          Received parent ([node], after) arena later) ∧
    (∀ members next, ∀ parent (arena : Arena S P), arena.length = next → parent < next →
      Received parent (Build.groupItems settings members next) arena
        (addItems settings parent members arena)) ∧
    (∀ items next, ∀ parent (arena : Arena S P), arena.length = next → parent < next →
      Received parent (Build.shapes settings items next) arena
        (addShapes settings parent items arena)) := by
  apply Build.shape.mutual_induct (S := S) (P := P) settings
  case case1 =>
    rintro members next unreadable parent arena rfl inside
    simp [Build.shape, addShape, unreadable]
  case case2 =>
    rintro members next head group readable children last items itemsAdded parent arena rfl inside
    have own := Build.head_number settings _ _ head _ readable
    simp only [items] at itemsAdded
    obtain ⟨size, below⟩ := itemsAdded arena.length
      (append parent (Cell.ofHead head (.group group)) arena).1 (append_length ..) (by omega)
    refine ⟨by simp [Build.shape, readable], fun node after built => ?_⟩
    simp only [Build.shape, readable, items, Option.some.injEq, Prod.mk.injEq] at built
    obtain ⟨rfl, rfl⟩ := built
    -- First the cell of the group, then its items below it, and then its children in order.
    have begun := append_extends parent (Cell.ofHead head (.group group)) arena inside
    have alone := append_own parent (Cell.ofHead head (.group group)) arena inside
    have filled := below.owner
    rw [alone] at filled
    have stands := arrange_own _ _ filled (by simp [Cell.extend, Cell.ofHead]) below.held
    refine ⟨_, by simp [addShape, readable, Node.id, Node.head, own]; rfl, ?_⟩
    exact .one own (.whole begun (append_length ..) own below (Build.arranged_perm children)
      (arrange_length ..) (fun _ => arrange_apart _ _) stands) ((arrange_length ..).trans size)
  case case3 =>
    rintro members next head kind noGroup readable parent arena rfl inside
    refine ⟨by simp [Build.shape, readable], fun node after built => ?_⟩
    simp only [Build.shape, readable, Option.some.injEq, Prod.mk.injEq] at built
    obtain ⟨rfl, rfl⟩ := built
    have own := Build.head_number settings _ _ head _ readable
    refine ⟨(append parent (Cell.ofHead head kind) arena).1, ?_, ?_⟩
    · simp [addShape, readable, Node.id, Node.head, own]
    · exact .one own (.leaf (append_extends _ _ _ inside) (append_length ..) own
        (append_own _ _ _ inside)) (append_length ..)
  case case4 =>
    rintro fragment next noObject parent arena rfl inside
    cases fragment with
    | object members => exact absurd rfl (noObject members)
    | _ => simp [Build.shape, addShape]
  case case5 =>
    rintro next parent arena rfl inside
    exact ⟨rfl, .none arena inside⟩
  case case6 =>
    rintro item rest next first after built others last same firstAdded restAdded parent arena rfl
      inside
    obtain ⟨later, added, size, begun⟩ := (firstAdded parent arena rfl inside).2 first after built
    simp only [same] at restAdded
    obtain ⟨lastSize, continued⟩ := restAdded parent later size
      (lt_of_lt_of_eq (Nat.lt_of_lt_of_le inside begun.longer) size)
    simp only [Build.shapes, addShapes, built, same, added]
    exact ⟨lastSize, begun.append continued⟩
  case case7 =>
    rintro item rest next unreadable firstAdded restAdded parent arena rfl inside
    have same := (firstAdded parent arena rfl inside).1 unreadable
    simpa only [Build.shapes, addShapes, unreadable, same] using restAdded parent arena rfl inside
  case case8 =>
    rintro next parent arena rfl inside
    exact ⟨rfl, .none arena inside⟩
  case case9 =>
    rintro name items rest next isItems itemsAdded parent arena rfl inside
    simpa only [Build.groupItems, addItems, isItems, ↓reduceIte] using
      itemsAdded parent arena rfl inside
  case case10 =>
    rintro name items rest next noItems restAdded parent arena rfl inside
    simpa only [Build.groupItems, addItems, noItems, Bool.false_eq_true, ↓reduceIte] using
      restAdded parent arena rfl inside
  case case11 =>
    rintro first rest next noList restAdded parent arena rfl inside
    obtain ⟨name, value⟩ := first
    cases value with
    | list items => exact absurd rfl (noList name items)
    | _ => simpa only [Build.groupItems, addItems] using restAdded parent arena rfl inside

end Shapes

/-! ## Effects -/

section Effects

/-- A cell for an effect stands behind all others, and is a child of its parent if it is a part of
another effect. -/
theorem effect_begun (nested : Bool) (parent : Nat) (cell : Cell S P) (arena : Arena S P)
    (inside : parent < arena.length) :
    ∃ start, (if nested then append parent cell arena else attach parent cell arena) =
        (start, arena.length) ∧ start.length = arena.length + 1 ∧
      Extends parent (if nested then [arena.length] else []) arena start ∧
      start[arena.length]? = some { cell with parent := some parent } := by
  cases nested with
  | true => exact ⟨_, rfl, append_length .., append_extends _ _ _ inside, append_own _ _ _ inside⟩
  | false => exact ⟨_, rfl, attach_length .., attach_extends _ _ _ inside, attach_own ..⟩

variable [Scalar S]

/-- Adding an effect gives the cells of the nodes that are built, each in its place. Only the parts
of another effect are listed as children. -/
theorem effect_parts_added :
    (∀ authored next, ∀ nested parent (arena : Arena S P), arena.length = next → parent < next →
      (Build.effect authored next = (none : Option (Node S P × Nat)) →
        addEffect nested parent authored arena = (arena, none)) ∧
      ∀ (node : Node S P) after, Build.effect authored next = some (node, after) →
        ∃ later, addEffect nested parent authored arena = (later, some node.id) ∧
          later.length = after ∧
          Added parent (if nested then [node.id] else []) [node] arena later) ∧
    (∀ parts next, ∀ parent (arena : Arena S P), arena.length = next → parent < next →
      Received parent (Build.effects parts next) arena (addParts parent parts arena)) := by
  apply Build.effect.mutual_induct (S := S) (P := P)
  case case1 =>
    rintro code name matchName parts value next authored unknown nested parent arena rfl inside
    simp [Build.effect, addEffect, unknown, authored]
  case case2 =>
    rintro code name matchName parts value next authored isGroup children last same partsAdded
      nested parent arena rfl inside
    refine ⟨by simp [Build.effect, isGroup, authored], fun node after built => ?_⟩
    simp only [Build.effect, isGroup, same, authored, Option.some.injEq, Prod.mk.injEq] at built
    obtain ⟨rfl, rfl⟩ := built
    obtain ⟨start, placed, one, begun, alone⟩ := effect_begun nested parent
      (Cell.ofHead (Build.effectHead authored arena.length) .effectGroup) arena inside
    simp only [same] at partsAdded
    obtain ⟨size, below⟩ := partsAdded arena.length start one (by omega)
    have stands : (addParts arena.length parts start)[arena.length]? =
        some (Placed.cell ⟨some parent,
          .mk (Build.effectHead authored arena.length) .effectGroup [] children⟩) := by
      rw [below.owner, alone]
      rfl
    refine ⟨addParts arena.length parts start, ?_, size, ?_⟩
    · simp only [authored] at placed
      simp only [addEffect, isGroup, authored, placed]
      rfl
    · exact .whole begun one rfl below (.refl _) rfl (fun _ _ => rfl) stands
  case case3 =>
    rintro code name matchName parts value next authored kind noGroup known nested parent arena rfl
      inside
    refine ⟨by simp [Build.effect, known, authored], fun node after built => ?_⟩
    simp only [Build.effect, known, authored, Option.some.injEq, Prod.mk.injEq] at built
    obtain ⟨rfl, rfl⟩ := built
    obtain ⟨start, placed, one, begun, alone⟩ := effect_begun nested parent
      (Cell.ofHead (Build.effectHead authored arena.length) kind) arena inside
    refine ⟨start, ?_, one, .leaf begun one rfl alone⟩
    simp only [authored] at placed
    simp only [addEffect, known, authored, placed]
    cases kind with
    | effectGroup => exact absurd rfl noGroup
    | _ => rfl
  case case4 =>
    rintro next parent arena rfl inside
    exact ⟨rfl, .none arena inside⟩
  case case5 =>
    rintro authored rest next first after built others last same firstAdded restAdded parent arena
      rfl inside
    obtain ⟨later, added, size, begun⟩ :=
      (firstAdded true parent arena rfl inside).2 first after built
    simp only [same] at restAdded
    obtain ⟨lastSize, continued⟩ := restAdded parent later size
      (lt_of_lt_of_eq (Nat.lt_of_lt_of_le inside begun.longer) size)
    simp only [Build.effects, addParts, built, same, added]
    exact ⟨lastSize, begun.append continued⟩
  case case6 =>
    rintro authored rest next unknown firstAdded restAdded parent arena rfl inside
    have same := (firstAdded true parent arena rfl inside).1 unknown
    simpa only [Build.effects, addParts, unknown, same] using restAdded parent arena rfl inside

/-- The effects of a layer are added without being listed as its children. -/
theorem effects_added (effects : List Document.Effect) (parent : Nat) (arena : Arena S P)
    (inside : parent < arena.length) :
    let made := (Build.effects effects arena.length : List (Node S P) × Nat)
    ∃ later, addEffects parent effects arena = (later, made.1.map Node.id) ∧
      later.length = made.2 ∧ Added parent [] made.1 arena later := by
  induction effects generalizing arena with
  | nil => exact ⟨arena, rfl, rfl, .none arena inside⟩
  | cons authored rest inductionHypothesis =>
    have first := effect_parts_added.1 authored _ false parent arena rfl inside
    cases built : (Build.effect authored arena.length : Option (Node S P × Nat)) with
    | none =>
      simpa only [Build.effects, addEffects, built, first.1 built, Option.toList_none,
        List.nil_append] using inductionHypothesis arena inside
    | some made =>
      obtain ⟨node, after⟩ := made
      obtain ⟨later, added, rfl, begun⟩ := first.2 node after built
      obtain ⟨final, others, size, continued⟩ :=
        inductionHypothesis later (Nat.lt_of_lt_of_le inside begun.longer)
      simp only [Build.effects, addEffects, built, added, others]
      exact ⟨final, rfl, size, begun.append continued⟩

end Effects

/-! ## Layers -/

section Layers

/-- A node has no number in common with another one if numbers are not taken twice. -/
theorem numbers_apart {before after : List (Node S P)} {node other : Node S P}
    (distinct : ((before ++ node :: after).flatMap Node.numbers).Nodup)
    (member : other ∈ before ++ after) {id : Nat} (inside : id ∈ other.numbers) :
    id ∉ node.numbers := by
  have first : (before ++ node :: after).Perm (node :: (before ++ after)) := List.perm_middle
  rw [(first.flatMap_right _).nodup_iff, List.flatMap_cons, List.nodup_append] at distinct
  exact fun own => distinct.2.2 id own id (List.mem_flatMap.mpr ⟨other, member, inside⟩) rfl

/-- Layers that have been added to nothing but a root are held under it. -/
theorem Received.root {made : List (Node S P) × Nat} {later : Arena S P}
    (received : Received 0 made root later) :
    later.Holds none (Build.rootWith made.1) ∧ later.length = made.2 :=
  ⟨(holds_iff ..).mpr ⟨received.added.owner, received.added.held⟩, received.size⟩

/-- A root is held with one of its layers filled in, if nothing but that layer has changed. -/
theorem root_held {before after : List (Node S P)} {layer filled : Node S P}
    {arena later : Arena S P} (held : arena.Holds none (Build.rootWith (before ++ layer :: after)))
    (numbered : Numbered 1 (before ++ layer :: after) arena.length)
    (filledHeld : later.Holds (some 0) filled) (same : filled.id = layer.id)
    (kept : ∀ id < arena.length, id ≠ layer.id → later[id]? = arena[id]?) :
    later.Holds none (Build.rootWith (before ++ filled :: after)) := by
  have member : layer ∈ before ++ layer :: after := by simp
  have distinct : ((before ++ layer :: after).flatMap Node.numbers).Nodup :=
    numbered.taken.all.nodup_iff.mpr List.nodup_range'
  obtain ⟨own, -, layersHeld⟩ := held.parts
  refine (holds_iff ..).mpr ⟨?_, fun part inside => ?_⟩
  · have inside := (numbered.bounds member)
    have root : later[0]? = arena[0]? := kept 0 (by omega) (by omega)
    refine root.trans (own.trans ?_)
    simp [Placed.cell, Build.rootWith, Node.children, Node.name, Node.head, Node.kind,
      Node.effects, same]
  · have among : part = filled ∨ part ∈ before ++ after := by
      simpa [Build.rootWith, Node.parts, Node.effects, Node.children, or_left_comm] using inside
    rcases among with rfl | other
    · exact filledHeld
    · have partHeld := layersHeld part (by
        rcases List.mem_append.mp other with early | late <;> simp [*])
      refine partHeld.kept fun id own => kept id (partHeld.inside own) ?_
      rintro rfl
      exact numbers_apart distinct other own layer.id_mem_numbers

variable [Scalar S]

/-- No layer is added where none is built. -/
theorem no_layer_added (workshop : Workshop S) (parent : Nat) (fragment : Value)
    (arena : Arena S P)
    (none : Build.layerHead workshop fragment arena.length = (none : Option (Node S P × Nat))) :
    addLayer workshop parent fragment arena = Option.none := by
  simp only [Build.layerHead, Option.bind_eq_bind, Option.bind_eq_none_iff, Option.pure_def,
    reduceCtorEq] at none
  simp only [addLayer, Option.bind_eq_bind, Option.bind_eq_none_iff, Option.pure_def, reduceCtorEq]
  exact none

/-- Adding a layer gives its cell and those of its effects, each in its place. -/
theorem layer_added (workshop : Workshop S) (parent : Nat) (fragment : Value) (arena : Arena S P)
    (inside : parent < arena.length) {node : Node S P} {after : Nat}
    (built : Build.layerHead workshop fragment arena.length = some (node, after)) :
    ∃ later, addLayer workshop parent fragment arena = some (later, node.id) ∧
      Received parent ([node], after) arena later := by
  simp only [Build.layerHead, Option.bind_eq_bind, Option.bind_eq_some_iff, Option.pure_def,
    Option.some.injEq, Prod.mk.injEq] at built
  obtain ⟨label, labelled, authored, readable, kind, known, rfl, rfl⟩ := built
  set cell : Cell S P :=
    Cell.ofHead (Head.ofLabel arena.length label) (.layer (Layer.ofDocument kind authored))
  have begun := append_extends parent cell arena inside
  obtain ⟨later, added, size, below⟩ := effects_added (P := P)
    (authored.effects.filterMap (read? Document.Effect.decode)) arena.length
    (append parent cell arena).1 (by simp)
  rw [append_length] at added size below
  have kept (other : Nat) (different : other ≠ arena.length) (change : Cell S P → Cell S P) :
      (later.modify arena.length change)[other]? = later[other]? :=
    List.getElem?_modify_ne _ _ different.symm
  set made : List (Node S P) × Nat :=
    Build.effects (authored.effects.filterMap (read? Document.Effect.decode)) (arena.length + 1)
  have placed : addLayer workshop parent fragment arena = some
      (later.modify arena.length (Cell.withEffects (made.1.map Node.id)), arena.length) := by
    simp only [cell] at added
    simp [addLayer, labelled, readable, known, added]
  refine ⟨_, placed, .one rfl
    (.whole begun (append_length ..) rfl below ?parts (List.length_modify ..)
      (fun other different => kept other different _) ?stands) ?size⟩
  case parts => simp [Node.parts, Node.effects, Node.children]
  case stands =>
    rw [List.getElem?_modify_eq, below.owner, append_own _ _ _ inside]
    rfl
  case size => rw [List.length_modify, size]

/-- The first round: the layers of a document are added one after the other, and it is remembered
which place each of them has. -/
theorem layers_added (workshop : Workshop S) (fragments : List Value) (arena : Arena S P)
    (inside : 0 < arena.length) :
    let made := (Build.layerHeads workshop fragments arena.length : List (Node S P × Value) × Nat)
    ∃ later, addLayers workshop fragments arena =
        (later, made.1.map fun entry => (entry.1.id, entry.2)) ∧
      Received 0 (made.1.map Prod.fst, made.2) arena later := by
  induction fragments generalizing arena with
  | nil => exact ⟨arena, rfl, rfl, .none arena inside⟩
  | cons fragment rest inductionHypothesis =>
    cases built : (Build.layerHead workshop fragment arena.length : Option (Node S P × Nat)) with
    | none =>
      have unmade := no_layer_added workshop 0 fragment arena built
      simpa only [Build.layerHeads, addLayers, built, unmade] using inductionHypothesis arena inside
    | some made =>
      obtain ⟨layer, after⟩ := made
      obtain ⟨later, added, rfl, begun⟩ := layer_added workshop 0 fragment arena inside built
      obtain ⟨final, others, size, continued⟩ :=
        inductionHypothesis later (Nat.lt_of_lt_of_le inside begun.longer)
      simp only [Build.layerHeads, addLayers, built, added, others]
      exact ⟨final, rfl, size, begun.append continued⟩

variable [Scalar P] [Widen S P]

/-- The second round, for one layer: its transform is set, and its contents are added. Nothing else
changes. -/
theorem layer_filled (workshop : Workshop S) (layer : Node S P) (fragment : Value)
    (arena : Arena S P) (held : arena.Holds (some 0) layer) (empty : layer.children = [])
    (distinct : layer.numbers.Nodup) :
    let filled := Build.fillLayer workshop layer fragment arena.length
    let later := fillLayer workshop layer.id fragment arena
    later.length = filled.2 ∧ later.Holds (some 0) filled.1 ∧ filled.1.id = layer.id ∧
      ∀ id < arena.length, id ≠ layer.id → later[id]? = arena[id]? := by
  obtain ⟨head, kind, effects, children⟩ := layer
  obtain rfl : children = [] := empty
  obtain ⟨own, effectsHeld, -⟩ := held.parts
  simp only [Build.fillLayer, fillLayer]
  cases (read? Document.Layer.decode fragment : Option (Document.Layer S)) with
  | none => exact ⟨rfl, held, rfl, fun _ _ _ => rfl⟩
  | some authored =>
    set moved := arena.modify head.id (Cell.mapKind (Build.setTransform
      (Transform.ofDocument authored.transform)))
    have size : moved.length = arena.length := List.length_modify ..
    have inside : head.id < arena.length := held.inside (Node.id_mem_numbers _)
    obtain ⟨grownSize, added⟩ := (shapes_added workshop.settings).2.2 authored.shapes arena.length
      head.id moved size inside
    have kept (id : Nat) (old : id < arena.length) (other : id ≠ head.id) :
        (arrange head.id (addShapes workshop.settings head.id authored.shapes moved))[id]? =
          arena[id]? := by
      rw [arrange_apart _ _ other, added.others id (size ▸ old) other,
        List.getElem?_modify_ne _ _ other.symm]
    have stands := added.owner
    rw [List.getElem?_modify_eq, own] at stands
    have last := arrange_own head.id _ stands (by simp [Cell.extend, Cell.mapKind]) added.held
    refine ⟨(arrange_length ..).trans grownSize, (holds_iff ..).mpr ⟨last, fun part member => ?_⟩,
      rfl, kept⟩
    rcases List.mem_append.mp member with effect | content
    · refine (effectsHeld part effect).kept fun id among => kept id ?_ ?_
      · exact (effectsHeld part effect).inside among
      · rintro rfl
        rw [Node.numbers_parts] at distinct
        exact (List.nodup_cons.mp distinct).1 (List.mem_flatMap.mpr
          ⟨part, List.mem_append_left _ effect, among⟩)
    · have among := (Build.mem_arranged ..).mp content
      refine (added.held part among).kept fun id within => arrange_apart _ _ ?_
      have fresh := (added.numbered.within among within).1
      exact (Nat.lt_of_lt_of_le (size.symm ▸ inside) fresh).ne'

/-- The second round: contents are added layer by layer, with what expressions mean by then. -/
theorem second_round_held (workshop : Workshop S) (heads : List (Node S P × Value))
    (filled : List (Node S P)) (arena : Arena S P)
    (held : arena.Holds none (Build.rootWith (filled ++ heads.map Prod.fst)))
    (numbered : Numbered 1 (filled ++ heads.map Prod.fst) arena.length)
    (empty : ∀ entry ∈ heads, entry.1.children = []) :
    let made := Build.fillLayers workshop filled heads arena.length
    let later := fillLayers workshop (heads.map fun entry => (entry.1.id, entry.2)) arena
    later.Holds none (Build.rootWith made.1) ∧ later.length = made.2 := by
  induction heads generalizing filled arena with
  | nil => simpa [Build.fillLayers, fillLayers] using held
  | cons entry rest inductionHypothesis =>
    obtain ⟨layer, fragment⟩ := entry
    have restEmpty (entry : Node S P × Value) (member : entry ∈ rest) :=
      empty entry (List.mem_cons_of_mem _ member)
    have layerEmpty : layer.children = [] := empty _ List.mem_cons_self
    rw [List.map_cons] at held numbered
    have all : Numbered 0 [Build.rootWith (filled ++ layer :: rest.map Prod.fst)] arena.length :=
      .node _ rfl numbered
    have member : layer ∈ filled ++ layer :: rest.map Prod.fst := by simp
    have distinct : layer.numbers.Nodup :=
      (numbered.taken.all.nodup_iff.mpr List.nodup_range').sublist
        (List.sublist_flatten_of_mem (List.mem_map_of_mem member))
    rw [List.map_cons, fillLayers, Build.fillLayers,
      resolve_meant (authored_held held rfl all.room.le) fragment]
    generalize Expression.resolve _ fragment = resolved
    obtain ⟨size, layerHeld, same, kept⟩ :=
      layer_filled workshop layer resolved arena (held.parts.2.2 layer member) layerEmpty distinct
    have next := Build.filled_numbered workshop 1 filled (rest.map Prod.fst) layer resolved _
      numbered layerEmpty
    have nextHeld := root_held held numbered layerHeld same kept
    generalize Build.fillLayer workshop layer resolved arena.length = made at *
    obtain ⟨contents, after⟩ := made
    obtain rfl : _ = after := size
    have behind : filled ++ contents :: rest.map Prod.fst =
        (filled ++ [contents]) ++ rest.map Prod.fst := List.append_cons ..
    exact inductionHypothesis _ _ (behind ▸ nextHeld) (behind ▸ next) restEmpty

end Layers

/-! ## Documents -/

/-- A layer that is held clips the one after it in the arena if it does so in the tree. -/
theorem matte_source_held {arena : Arena S P} {parent : Option Nat} {node : Node S P}
    (held : arena.Holds parent node) :
    isMatteSource arena node.id = Build.isMatteSource node := by
  rw [isMatteSource, ((holds_iff ..).mp held).1, Build.isMatteSource, Node.layer?, Option.bind_some]
  show (node.kind.layer?).any _ = _
  cases node.kind.layer? <;> rfl

/-- Swapping matte sources to the front, behind the places that are done, gives the places of the
layers in the order that the tree has. -/
theorem mattes_swapped {arena : Arena S P} {parent : Option Nat} (layers : List (Node S P))
    (held : ∀ layer ∈ layers, arena.Holds parent layer) (done : List Nat) :
    swapMattes arena (done ++ layers.map Node.id) (done.length + 1) =
      done ++ (Build.mattesFirst layers).map Node.id := by
  induction layers using Build.mattesFirst.induct generalizing done with
  | case1 layer source rest isSource inductionHypothesis =>
    have sourceHeld := held source (by simp)
    have restSwapped := inductionHypothesis (fun other member => held other (by simp [member]))
      (done ++ [source.id, layer.id])
    rw [swapMattes, Build.mattesFirst, if_pos isSource]
    simpa [matte_source_held sourceHeld, isSource] using restSwapped
  | case2 layer other rest noSource inductionHypothesis =>
    have otherHeld := held other (by simp)
    have restSwapped := inductionHypothesis (fun other member => held other
      (List.mem_cons_of_mem _ member)) (done ++ [layer.id])
    rw [swapMattes, Build.mattesFirst, if_neg noSource]
    simpa [matte_source_held otherHeld, noSource] using restSwapped
  | case3 layers short =>
    have few : layers.length ≤ 1 := by
      rcases layers with _ | ⟨first, _ | ⟨second, rest⟩⟩
      · simp
      · simp
      · exact absurd rfl (short first second rest)
    rw [swapMattes, dif_neg (by simp; omega), Build.mattesFirst]
    exact short

/-- The layers of a root that is held are put in the order that the tree has. -/
theorem layers_arranged_held {arena : Arena S P} {layers : List (Node S P)}
    (held : arena.Holds none (Build.rootWith layers))
    (below : ∀ layer ∈ layers, 0 ∉ layer.numbers) :
    (arrangeLayers arena).Holds none (Build.rootWith (Build.mattesFirst layers.reverse)) := by
  obtain ⟨own, -, layersHeld⟩ := held.parts
  have listed : childrenAt 0 arena = layers.map Node.id := children_held held
  have swapped := mattes_swapped layers.reverse
    (fun layer member => layersHeld layer (List.mem_reverse.mp member)) []
  rw [List.nil_append, List.nil_append, List.map_reverse, List.length_nil, Nat.zero_add] at swapped
  rw [arrangeLayers, listed]
  refine (holds_iff ..).mpr ⟨?_, fun layer member => ?_⟩
  · rw [show (Build.rootWith (Build.mattesFirst layers.reverse)).id = 0 from rfl,
      List.getElem?_modify_eq, own, swapped]
    rfl
  · have among : layer ∈ layers :=
      List.mem_reverse.mp ((Build.mem_mattes_first ..).mp member)
    refine (layersHeld layer among).kept fun id inside => List.getElem?_modify_ne _ _ ?_
    rintro rfl
    exact below layer among inside

variable [Scalar S] [Scalar P] [Widen S P]

/-- The cells of a document's scene hold the tree of the document, and there are no others. -/
theorem document_held (settings : Trim.Settings) (document : Document S) :
    let arena : Arena S P := ofDocument settings document
    let tree := Tree.ofDocument settings document
    arena.Holds none tree.root ∧ arena.length = tree.next := by
  set workshop : Workshop S := ⟨settings, document.assets⟩
  obtain ⟨begun, added, received⟩ :=
    layers_added (P := P) workshop document.layers root Nat.zero_lt_one
  obtain ⟨headsHeld, size⟩ := received.root
  obtain ⟨heads, empty⟩ := Build.layer_heads_numbered (P := P) workshop document.layers 1
  obtain ⟨held, finalSize⟩ := second_round_held workshop _ [] begun headsHeld (size ▸ heads) empty
  have numbered := Build.fill_layers_numbered workshop 1 _ [] _ heads empty
  rw [size] at held finalSize
  have below : ∀ layer ∈ _, 0 ∉ Node.numbers layer := fun layer member zero =>
    absurd (numbered.within member zero).1 (by decide)
  rw [show (ofDocument settings document : Arena S P) = arrangeLayers (fillLayers workshop _ begun)
    by rw [ofDocument, added]]
  exact ⟨layers_arranged_held held below, (List.length_modify ..).trans finalSize⟩

end Arena

end VectorMotion.Scene
