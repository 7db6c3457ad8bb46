import Mathlib.Algebra.BigOperators.Ring.List
import Mathlib.Algebra.Ring.Nat
import VectorMotion.Proofs.Scene.History
import VectorMotion.Proofs.Scene.Table

/-!
# How trees grow

A tree is that of a document, or has grown from one, or from nothing, by one node or one fragment at
a time; in between it may be brought to times and nodes may change what they are. However it has
grown, its nodes have the numbers from zero on, each once, whether they stand in the tree or beside
it. So a number stands for one node, and layers under the root can be told apart by their numbers,
also where the document gives them the same ones or none.

What happens to a node is followed by counting how often a number occurs: a change at a number that
occurs once is one change.
-/

namespace VectorMotion.Scene

open Json

variable {S P : Type}

namespace Node

/-- A change at a number changes the parts of all other nodes. -/
theorem modify_parts (node : Node S P) (id : Nat) (change : Node S P → Node S P)
    (other : node.id ≠ id) :
    (node.modify id change).id = node.id ∧
      (node.modify id change).parts = node.parts.map (modify id change) := by
  obtain ⟨head, kind, effects, children⟩ := node
  have different : (head.id == id) = false := beq_eq_false_iff_ne.mpr other
  simp only [modify, different, Bool.false_eq_true, ↓reduceIte, modifyAll_map, parts, Node.effects,
    Node.children, List.map_append, Node.id, Node.head, and_self]

/-- A change of a node by its own number is the change of that node. -/
theorem modify_here (node : Node S P) (id : Nat) (change : Node S P → Node S P)
    (here : node.id = id) : node.modify id change = change node := by
  obtain ⟨head, kind, effects, children⟩ := node
  have same : (head.id == id) = true := beq_iff_eq.mpr here
  rw [modify, if_pos same]

/-- A change at a number that is not there is none. -/
theorem modify_absent (node : Node S P) (id : Nat) (change : Node S P → Node S P)
    (absent : id ∉ node.numbers) : node.modify id change = node := by
  induction node with
  | mk head kind effects children effectsKept childrenKept =>
    rw [numbers_parts, List.mem_cons, List.mem_flatMap] at absent
    obtain ⟨other, absent⟩ := not_or.mp absent
    have different : (head.id == id) = false := beq_eq_false_iff_ne.mpr (Ne.symm other)
    have keptAll (nodes : List (Node S P)) (kept : ∀ node ∈ nodes, node.modify id change = node) :
        nodes.map (modify id change) = nodes :=
      (List.map_congr_left kept).trans (List.map_id' _)
    have below (part : Node S P) (inside : part ∈ effects ++ children) : id ∉ part.numbers :=
      fun within => absent ⟨part, inside, within⟩
    rw [modify, if_neg (by simp [different]), modifyAll_map, modifyAll_map,
      keptAll effects fun part inside =>
        effectsKept part inside (below part (List.mem_append_left _ inside)),
      keptAll children fun part inside =>
        childrenKept part inside (below part (List.mem_append_right _ inside))]

/-- Nodes without a number stay as they are where it is changed. -/
theorem absent_stay (nodes : List (Node S P)) (id : Nat) (change : Node S P → Node S P)
    (absent : ∀ node ∈ nodes, id ∉ node.numbers) : nodes.map (modify id change) = nodes :=
  (List.map_congr_left fun node inside => node.modify_absent id change (absent node inside)).trans
    (List.map_id' _)

/-- What a change adds below some nodes, if what it adds below each of them is told. -/
theorem count_each (nodes : List (Node S P)) (id : Nat) (change : Node S P → Node S P)
    (more : List Nat) (number : Nat)
    (each : ∀ node ∈ nodes, (node.modify id change).numbers.count number =
      node.numbers.count number + node.numbers.count id * more.count number) :
    ((nodes.map (modify id change)).flatMap numbers).count number =
      (nodes.flatMap numbers).count number +
        (nodes.flatMap numbers).count id * more.count number := by
  simp only [List.count_flatMap, List.map_map, Function.comp_def, List.map_congr_left each,
    List.sum_map_add, List.sum_map_mul_right]

/-- What a change adds below a node with a number is added below any other node once for each time
that the number occurs there. -/
theorem count_modified (node : Node S P) (id : Nat) (change : Node S P → Node S P)
    (more : List Nat) (number : Nat) (distinct : node.numbers.Nodup)
    (changed : ∀ node, node.id = id → (change node).numbers.Perm (node.numbers ++ more)) :
    (node.modify id change).numbers.count number =
      node.numbers.count number + node.numbers.count id * more.count number := by
  induction node using parts_induction with
  | step node partsCounted =>
    by_cases here : node.id = id
    · have once : node.numbers.count id = 1 :=
        List.count_eq_one_of_mem distinct (here ▸ node.id_mem_numbers)
      rw [modify_here _ _ _ here, (changed node here).count_eq, List.count_append, once, one_mul]
    · obtain ⟨own, parts⟩ := modify_parts node id change here
      rw [numbers_parts] at distinct
      have total := count_each node.parts id change more number fun part inside =>
        partsCounted part inside (distinct.of_cons.sublist
          (List.sublist_flatten_of_mem (List.mem_map_of_mem inside)))
      have elsewhere : (node.id :: node.parts.flatMap numbers).count id =
          (node.parts.flatMap numbers).count id := List.count_cons_of_ne here
      rw [numbers_parts (node.modify id change), own, parts, numbers_parts node, elsewhere,
        List.count_cons, List.count_cons, total]
      omega

/-- One more child brings its numbers behind the others. -/
theorem append_numbers (node child : Node S P) :
    (append child node).numbers = node.numbers ++ child.numbers := by
  obtain ⟨head, kind, effects, children⟩ := node
  simp [append, numbers_parts (.mk head kind effects _), parts, Node.effects, Node.children, Node.id,
    Node.head]

/-- A child that has been appended is changed where it stands. -/
theorem modify_appended (node child : Node S P) (parent : Nat) (change : Node S P → Node S P)
    (absent : child.id ∉ node.numbers) :
    (node.modify parent (append child)).modify child.id change =
      node.modify parent (append (change child)) := by
  induction node with
  | mk head kind effects children effectsChanged childrenChanged =>
    have parted := absent
    rw [numbers_parts, List.mem_cons, List.mem_flatMap] at parted
    obtain ⟨other, below⟩ := not_or.mp parted
    have absentBelow (part : Node S P) (inside : part ∈ effects ++ children) :
        child.id ∉ part.numbers := fun within => below ⟨part, inside, within⟩
    have inEffects (effect : Node S P) (inside : effect ∈ effects) :
        child.id ∉ effect.numbers := absentBelow effect (List.mem_append_left _ inside)
    have inChildren (child' : Node S P) (inside : child' ∈ children) :
        child.id ∉ child'.numbers := absentBelow child' (List.mem_append_right _ inside)
    have different : (head.id == child.id) = false := beq_eq_false_iff_ne.mpr (Ne.symm other)
    by_cases here : head.id = parent
    · rw [modify_here (mk head kind effects children) _ _ here,
        modify_here (mk head kind effects children) _ _ here]
      simp [append, modify, different, modifyAll_map, absent_stay effects _ change inEffects,
        absent_stay children _ change inChildren, modify_here child _ change rfl]
    · have apart : (head.id == parent) = false := beq_eq_false_iff_ne.mpr here
      simp only [modify, apart, different, Bool.false_eq_true, ↓reduceIte, modifyAll_map,
        List.map_map, mk.injEq, true_and]
      exact ⟨List.map_congr_left fun effect inside =>
          effectsChanged effect inside (inEffects effect inside),
        List.map_congr_left fun other inside =>
          childrenChanged other inside (inChildren other inside)⟩

end Node

namespace Tree

/-- The nodes that are in no other node: the root, and those beside the tree. -/
def tops (tree : Tree S P) : List (Node S P) := tree.root :: tree.loose.map Prod.snd

/-- The numbers of all nodes of a tree. -/
def numbers (tree : Tree S P) : List Nat := tree.tops.flatMap Node.numbers

/-- A tree whose nodes have the numbers from zero on, each once. -/
def Counted (tree : Tree S P) : Prop := Taken 0 tree.numbers tree.next

/-- The placed nodes carry the numbers of the tree, in some order. -/
theorem placed_perm (tree : Tree S P) :
    (tree.placed.map fun entry => entry.node.id).Perm tree.numbers := by
  have loose : (tree.loose.flatMap fun entry => entry.2.placed (some entry.1)).map
      (fun entry => entry.node.id) = (tree.loose.map Prod.snd).flatMap Node.numbers := by
    simp only [List.map_flatMap, Node.placed_numbers, List.flatMap_map]
  have all := (List.mergeSort_perm (Node.placed none tree.root ++
    tree.loose.flatMap fun entry => entry.2.placed (some entry.1))
      fun a b => a.node.id ≤ b.node.id).map fun entry => entry.node.id
  rw [List.map_append, Node.placed_numbers, loose] at all
  exact all

/-- A node can be asked for just in case its number is one of the tree. -/
theorem at_is_some (tree : Tree S P) (id : Nat) : (tree.at? id).isSome ↔ id ∈ tree.numbers := by
  rw [at?, List.find?_isSome, ← tree.placed_perm.mem_iff]
  simp [List.mem_map]

/-- A change in the tree is a change in each of the nodes at its top. -/
theorem modify_tops (tree : Tree S P) (id : Nat) (change : Node S P → Node S P) :
    (tree.modify id change).tops = tree.tops.map (Node.modify id change) := by
  simp [tops, modify]

/-- A change at a number of a tree adds what it adds once. -/
theorem modify_numbers {tree : Tree S P} (counted : tree.Counted) {id : Nat}
    {change : Node S P → Node S P} {more : List Nat} (there : more = [] ∨ id ∈ tree.numbers)
    (changed : ∀ node, node.id = id → (change node).numbers.Perm (node.numbers ++ more)) :
    (tree.modify id change).numbers.Perm (tree.numbers ++ more) := by
  have distinct : tree.numbers.Nodup := counted.all.nodup_iff.mpr List.nodup_range'
  rw [List.perm_iff_count]
  intro number
  have total := Node.count_each tree.tops id change more number fun node inside =>
    node.count_modified id change more number
      (distinct.sublist (List.sublist_flatten_of_mem (List.mem_map_of_mem inside))) changed
  rw [numbers, modify_tops, total, List.count_append]
  rcases there with rfl | there
  · simp [numbers]
  · have once : (tree.tops.flatMap Node.numbers).count id = 1 :=
      List.count_eq_one_of_mem distinct there
    rw [once, one_mul, numbers]

/-- A change of nodes that keeps their numbers and their parts. -/
theorem Counted.modify {tree : Tree S P} (counted : tree.Counted) (id : Nat)
    {change : Node S P → Node S P}
    (kept : ∀ node, (change node).id = node.id ∧ (change node).parts = node.parts) :
    (tree.modify id change).Counted := by
  refine counted.perm ?_
  have same : (tree.modify id change).numbers.Perm (tree.numbers ++ []) :=
    modify_numbers counted (.inl rfl) fun node _ => by
      rw [Node.numbers_parts, (kept node).1, (kept node).2, ← Node.numbers_parts, List.append_nil]
  rwa [List.append_nil] at same

/-- A node that has taken the next numbers joins the tree, wherever it is put. -/
theorem Counted.insert {tree : Tree S P} (counted : tree.Counted) (parent : Nat)
    {node : Node S P} {next : Nat} (taken : Taken tree.next node.numbers next) :
    (tree.insert parent node next).Counted := by
  have last : (tree.insert parent node next).next = next := by
    rw [Tree.insert]
    split <;> rfl
  rw [Counted, last]
  refine (Taken.append counted taken).perm ?_
  rw [Tree.insert]
  split
  · rename_i there
    exact modify_numbers counted (.inr ((tree.at_is_some parent).mp there)) fun other _ => by
      rw [Node.append_numbers]
  · simp [numbers, tops]

/-- A layer joins a tree as it is once it has been filled in. -/
theorem add_layer_insert {tree : Tree S P} (counted : tree.Counted) (parent : Nat)
    (node filled : Node S P) (next last : Nat) (fresh : tree.next ≤ node.id) :
    { (tree.insert parent node next).modify node.id fun _ => filled with next := last } =
      tree.insert parent filled last := by
  have absent : ∀ top ∈ tree.tops, node.id ∉ top.numbers := by
    intro top inside within
    have known : node.id ∈ tree.numbers := List.mem_flatMap.mpr ⟨top, inside, within⟩
    exact Nat.not_lt.mpr fresh ((Taken.mem counted _).mp known).2
  obtain ⟨inTree, beside⟩ := List.forall_mem_cons.mp absent
  have absentBeside : ∀ entry ∈ tree.loose, node.id ∉ entry.2.numbers :=
    fun entry inside => beside entry.2 (List.mem_map_of_mem inside)
  rw [Tree.insert, Tree.insert]
  split
  · simp only [Tree.modify, List.map_map, mk.injEq, and_true]
    refine ⟨tree.root.modify_appended node parent _ inTree, List.map_congr_left fun entry inside => ?_⟩
    exact congrArg (Prod.mk entry.1)
      (entry.2.modify_appended node parent _ (absentBeside entry inside))
  · have stays : tree.loose.map (fun entry => (entry.1, entry.2.modify node.id fun _ => filled)) =
        tree.loose := (List.map_congr_left fun entry inside =>
      congrArg (Prod.mk entry.1) (entry.2.modify_absent _ _ (absentBeside entry inside))).trans
        (List.map_id' _)
    simp only [Tree.modify, List.map_append, List.map_cons, List.map_nil, mk.injEq, and_true]
    exact ⟨tree.root.modify_absent _ _ inTree, by rw [stays, node.modify_here _ _ rfl]⟩

section Growing

variable [Scalar S] [Scalar P] [Widen S P] [Measure P]

/-- The trees that there are: with nothing but a root or of a document, and what comes of them by
more nodes and fragments, wherever these are put, by times, and by changes of what nodes are. -/
inductive Grown : Tree S P → Prop where
  | empty : Grown Tree.empty
  | ofDocument (settings : Trim.Settings) (document : Document S) :
      Grown (Tree.ofDocument settings document)
  | addNode {tree : Tree S P} (before : Grown tree) (parent : Nat) (head : Head) (kind : Kind S P)
      (own : head.id = tree.next) :
      Grown (tree.insert parent (.mk head kind [] []) (tree.next + 1))
  | addShape {tree grown : Tree S P} (before : Grown tree) {settings : Trim.Settings}
      {parent id : Nat} {fragment : Value}
      (added : tree.addShape settings parent fragment = some (grown, id)) : Grown grown
  | addLayer {tree grown : Tree S P} (before : Grown tree) {workshop : Workshop S}
      {parent id : Nat} {fragment : Value}
      (added : tree.addLayer workshop parent fragment = some (grown, id)) : Grown grown
  | update {tree : Tree S P} (before : Grown tree) (time : S) : Grown (tree.update time)
  | modify {tree : Tree S P} (before : Grown tree) (id : Nat) (change : Node S P → Node S P)
      (kept : ∀ node, (change node).id = node.id ∧ (change node).parts = node.parts) :
      Grown (tree.modify id change)

/-- However a tree has grown, its nodes have the numbers from zero on, each once. -/
theorem Grown.counted {tree : Tree S P} (grown : tree.Grown) : tree.Counted := by
  induction grown with
  | empty => exact ⟨Nat.zero_le 1, by simp [Tree.empty, numbers, tops, Build.rootWith,
      Node.numbers_parts, Node.parts, Node.effects, Node.children, Node.id, Node.head]⟩
  | ofDocument settings document =>
    have numbered := Build.document_numbered (P := P) ⟨settings, document.assets⟩ document.layers
    exact numbered.taken
  | @addNode tree before parent head kind own counted =>
    refine counted.insert parent ?_
    have alone := Numbered.node (.mk head kind [] []) own (.none _)
    simpa using alone.taken
  | @addShape tree grown before settings parent id fragment added counted =>
    obtain ⟨⟨node, next⟩, built, same⟩ := Option.map_eq_some_iff.mp added
    obtain rfl : tree.insert parent node next = grown := (Prod.mk.inj same).1
    have numbered := (Build.contents_numbered settings).1 fragment tree.next node next built
    exact counted.insert parent (by simpa using numbered.taken)
  | @addLayer tree grown before workshop parent id fragment added counted =>
    obtain ⟨⟨node, next⟩, built, same⟩ := Option.map_eq_some_iff.mp added
    obtain ⟨numbered, empty⟩ := Build.layer_head_numbered workshop fragment tree.next next node built
    obtain ⟨fresh, early⟩ := numbered.bounds List.mem_cons_self
    let root := (tree.insert parent node next).root
    let filled := Build.fillLayer workshop node (Expression.resolve root fragment) next
    obtain rfl : tree.insert parent filled.1 filled.2 = grown :=
      (add_layer_insert counted parent node filled.1 next filled.2 fresh).symm.trans
        (Prod.mk.inj same).1
    obtain ⟨contents, taken, all, -⟩ := Build.fill_layer_numbered workshop node
      (Expression.resolve root fragment) next empty (numbered.rising node List.mem_cons_self) early
    have own : Taken tree.next node.numbers next := by simpa using numbered.taken
    exact counted.insert parent ((own.append taken).perm all)
  | @update tree before time counted =>
    have same : (tree.root.update time none).numbers = tree.root.numbers := by
      rw [← Node.rows_numbers none, Node.update_rows, Node.rows_numbers]
    have all : (tree.update time).numbers = tree.numbers :=
      congrArg (· ++ (tree.loose.map Prod.snd).flatMap Node.numbers) same
    exact Taken.perm counted (all ▸ List.Perm.refl _)
  | modify before id change kept counted => exact counted.modify id kept

/-- A group joins a tree like any other node. -/
theorem Grown.addGroup {tree : Tree S P} (before : tree.Grown) (parent : Nat) (name : String) :
    (tree.addGroup parent name).1.Grown :=
  before.addNode parent { id := tree.next, name } (.group {}) rfl

/-- Hiding and showing a node changes neither its number nor its parts. -/
theorem Grown.setHidden {tree : Tree S P} (before : tree.Grown) (id : Nat) (hidden : Bool) :
    (tree.setHidden id hidden).Grown :=
  before.modify id _ fun ⟨_, _, _, _⟩ => ⟨rfl, rfl⟩

/-- Looking up the parents of layers changes what the layers are, and nothing else. -/
theorem Grown.settle {tree : Tree S P} (before : tree.Grown) (ids : List Nat) :
    (tree.settle ids).Grown := by
  unfold Tree.settle
  generalize tree.layers = layers
  induction ids generalizing tree with
  | nil => exact before
  | cons id rest inductionHypothesis =>
    exact inductionHypothesis (before.modify id _ fun ⟨_, _, _, _⟩ => ⟨rfl, rfl⟩)

end Growing

end Tree

/-- Every state of a scene has a tree that has grown from that of its document. -/
theorem Reachable.grown [Scalar S] [Scalar P] [Widen S P] [Measure P] {settings : Trim.Settings}
    {document : Document S} {scene : Scene S P} (reachable : Reachable settings document scene) :
    scene.tree.Grown := by
  induction reachable with
  | loaded => exact (Tree.Grown.ofDocument settings document).update _
  | updated scene frame before inductionHypothesis => exact inductionHypothesis.update frame
  | settled scene ids before inductionHypothesis => exact inductionHypothesis.settle ids

namespace Tree

/-! ## Layers under the root -/

/-- The entries of the layers are the heads and layers among the children of the root. -/
theorem mem_layers (tree : Tree S P) (entry : LayerEntry S) :
    entry ∈ tree.layers ↔
      ∃ node ∈ tree.root.children, node.head = entry.1 ∧ node.layer? = some entry.2 := by
  simp only [layers, Parenting.entries, List.mem_filterMap, Option.map_eq_some_iff]
  constructor
  · rintro ⟨node, inside, layer, isLayer, rfl⟩
    exact ⟨node, inside, rfl, isLayer⟩
  · rintro ⟨node, inside, head, isLayer⟩
    exact ⟨node, inside, entry.2, isLayer, by rw [head]⟩

/-- The layers under the root can be told apart by their numbers. -/
theorem Counted.layers_distinct {tree : Tree S P} (counted : tree.Counted) :
    (tree.layers.map fun entry => entry.1.id).Nodup := by
  have distinct : tree.numbers.Nodup := counted.all.nodup_iff.mpr List.nodup_range'
  have some (nodes : List (Node S P)) :
      ((Parenting.entries nodes).map fun entry => entry.1.id).Sublist (nodes.map Node.id) := by
    induction nodes with
    | nil => exact .slnil
    | cons node rest inductionHypothesis =>
      simp only [Parenting.entries, List.filterMap_cons, List.map_cons] at inductionHypothesis ⊢
      cases node.layer? with
      | none => exact inductionHypothesis.cons _
      | some layer => exact inductionHypothesis.cons_cons _
  have children : (tree.root.children.map Node.id).Sublist (tree.root.parts.map Node.id) :=
    (List.sublist_append_right _ _).map _
  exact distinct.sublist (((some _).trans children).trans
    (tree.root.parts_sublist.trans (List.sublist_append_left _ _)))

/-- A node under the root stands there in the tree. -/
theorem child_placed (tree : Tree S P) {node : Node S P} (child : node ∈ tree.root.children) :
    ⟨some tree.root.id, node⟩ ∈ tree.placed := by
  have listed : tree.root ∈ tree.root.listing := by
    rw [Node.listing_parts]
    exact List.mem_cons_self
  exact List.mem_mergeSort.mpr (List.mem_append_left _
    (Node.part_placed listed (List.mem_append_right _ child)))

/-- A node with the number of a layer under the root is that layer. -/
theorem Counted.layer_unique {tree : Tree S P} (counted : tree.Counted) {placed : Placed S P}
    (standing : placed ∈ tree.placed) {entry : LayerEntry S} (among : entry ∈ tree.layers)
    (same : placed.node.id = entry.1.id) :
    placed.node.head = entry.1 ∧ placed.node.layer? = some entry.2 := by
  have distinct : (tree.placed.map fun entry => entry.node.id).Nodup :=
    tree.placed_perm.nodup_iff.mpr (counted.all.nodup_iff.mpr List.nodup_range')
  obtain ⟨node, child, head, isLayer⟩ := (mem_layers tree entry).mp among
  have number : placed.node.id = node.id := same.trans (congrArg Head.id head.symm)
  have one : placed = ⟨some tree.root.id, node⟩ :=
    List.inj_on_of_nodup_map distinct standing (tree.child_placed child) number
  rw [one]
  exact ⟨head, isLayer⟩

end Tree

end VectorMotion.Scene
