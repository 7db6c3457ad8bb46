import Mathlib.Data.List.Find
import Mathlib.Data.List.Nodup
import VectorMotion.Proofs.Scene.Numbering
import VectorMotion.Scene

/-!
# Scenes as tables

A scene can be laid out as a table in which nodes refer to each other by their numbers: to their
parent, to their effects and to their children. A table may say things that no tree says, such as
that a node is its own grandparent, that it stands in two lists, or that a list names a number which
is not in the table. The table of a scene says nothing of the kind. Whoever follows the numbers from
the root down meets every node once, and comes to an end.

A number is that of one node only, because building takes every number once. This is what carries
the statements about trees over to tables. Bringing a scene to a time changes nothing that its table
shows.
-/

namespace VectorMotion.Scene

variable {S P : Type}

/-- A node as a table shows it. -/
structure Row where
  id : Nat
  name : String
  matchName : Option String
  hidden : Bool
  /-- Whether the node is a layer. -/
  layer : Bool
  parent : Option Nat
  effects : List Nat
  children : List Nat
  deriving Repr, DecidableEq

namespace Row

/-- The numbers of all nodes that a row lists. -/
def parts (row : Row) : List Nat := row.effects ++ row.children

end Row

/-- The row of a node. -/
def Placed.row (placed : Placed S P) : Row :=
  { id := placed.node.id
    name := placed.node.name
    matchName := placed.node.head.matchName
    hidden := placed.node.head.hidden
    layer := placed.node.layer?.isSome
    parent := placed.parent
    effects := placed.node.effects.map Node.id
    children := placed.node.children.map Node.id }

/-- The row of a node lists the numbers of its parts. -/
theorem Placed.row_parts (placed : Placed S P) :
    placed.row.parts = placed.node.parts.map Node.id := by
  simp only [row, Row.parts, Node.parts, List.map_append]

/-- The rows of all nodes, in the order of their numbers. -/
def Tree.rows (tree : Tree S P) : List Row := tree.placed.map Placed.row

/-- A table in which every node but the first is listed by its parent, once, and by no other
node. -/
structure Consistent (rows : List Row) : Prop where
  /-- A row stands at the place of its number. -/
  placed : rows.map Row.id = List.range rows.length
  /-- Every number in a list is that of a row. -/
  listed : ∀ row ∈ rows, ∀ id ∈ row.parts, id < rows.length
  /-- The first row, and no other, has no parent. -/
  top : ∀ row ∈ rows, row.parent = none ↔ row.id = 0
  /-- A parent comes before its parts. -/
  earlier : ∀ row ∈ rows, ∀ parent, row.parent = some parent → parent < row.id
  /-- A node is listed once by its parent, as an effect or as a child, and nowhere else. -/
  once : ∀ row ∈ rows, ∀ owner ∈ rows,
    owner.parts.count row.id = if row.parent = some owner.id then 1 else 0
  /-- Only layers have effects. -/
  effects : ∀ row ∈ rows, row.effects ≠ [] → row.layer = true

/-- The numbers that are met on the way down from a row, in the order in which names are looked up
and nodes are listed, brought to a time and drawn: a row, then its effects and then its children. A
walk fails if it comes upon a number that is not in the table or goes deeper than a bound. -/
def walk (rows : List Row) : Nat → Nat → Option (List Nat)
  | 0, _ => none
  | depth + 1, id => do
    let row ← rows[id]?
    let below ← row.parts.mapM (walk rows depth)
    return id :: below.flatten

/-- In a table whose rows stand at the places of their numbers, a row is found by its number. -/
theorem row_found {rows : List Row} (placed : rows.map Row.id = List.range rows.length) {row : Row}
    (member : row ∈ rows) : rows[row.id]? = some row := by
  obtain ⟨place, found⟩ := List.mem_iff_getElem?.mp member
  have number : (rows.map Row.id)[place]? = some row.id := by simp [found]
  rw [placed] at number
  have same : place = row.id := by
    obtain ⟨_, number⟩ := List.getElem?_eq_some_iff.mp number
    simpa using number
  exact same ▸ found

namespace Node

/-- Nodes are placed under their parent one after the other. -/
theorem placedAll_flatMap (parent : Nat) (nodes : List (Node S P)) :
    placedAll parent nodes = nodes.flatMap (placed (some parent)) := by
  induction nodes with
  | nil => rfl
  | cons first rest inductionHypothesis =>
    simp only [placedAll, inductionHypothesis, List.flatMap_cons]

/-- A node with its parent, and then all its parts with what is below them. -/
theorem placed_parts (parent : Option Nat) (node : Node S P) :
    node.placed parent = ⟨parent, node⟩ :: node.parts.flatMap (placed (some node.id)) := by
  obtain ⟨head, kind, effects, children⟩ := node
  simp [placed, placedAll_flatMap, parts, Node.effects, Node.children, Node.id, Node.head]

/-- The nodes that are placed are those that are listed, in the same order. -/
theorem placed_listing (parent : Option Nat) (node : Node S P) :
    (node.placed parent).map Placed.node = node.listing := by
  induction node using parts_induction generalizing parent with
  | step node partsListed =>
    rw [placed_parts, listing_parts, List.map_cons, List.map_flatMap]
    exact congrArg _ (List.flatMap_congr fun part member => partsListed part member _)

/-- Placing a node visits its numbers in their order. -/
theorem placed_numbers (parent : Option Nat) (node : Node S P) :
    (node.placed parent).map (fun entry => entry.node.id) = node.numbers := by
  rw [numbers, ← placed_listing parent, List.map_map]
  rfl

/-- A node that is placed is the top one, or a part of one that is listed, which is its parent. -/
theorem placed_owner {parent : Option Nat} {top : Node S P} {entry : Placed S P}
    (member : entry ∈ top.placed parent) :
    entry = ⟨parent, top⟩ ∨
      ∃ owner ∈ top.listing, entry.node ∈ owner.parts ∧ entry.parent = some owner.id := by
  induction top using parts_induction generalizing parent with
  | step top partsOwned =>
    rw [placed_parts] at member
    rw [listing_parts]
    rcases List.mem_cons.mp member with rfl | below
    · exact .inl rfl
    · obtain ⟨part, inside, below⟩ := List.mem_flatMap.mp below
      rcases partsOwned part inside below with rfl | ⟨owner, listed, owns, parent⟩
      · exact .inr ⟨top, List.mem_cons_self, inside, rfl⟩
      · exact .inr ⟨owner, List.mem_cons_of_mem _ (List.mem_flatMap.mpr ⟨part, inside, listed⟩),
          owns, parent⟩

/-- Every part of a node that is listed is placed, with that node as its parent. -/
theorem part_placed {parent : Option Nat} {top owner part : Node S P}
    (listed : owner ∈ top.listing) (member : part ∈ owner.parts) :
    ⟨some owner.id, part⟩ ∈ top.placed parent := by
  induction top using parts_induction generalizing parent with
  | step top partsPlaced =>
    rw [listing_parts] at listed
    rw [placed_parts]
    refine List.mem_cons_of_mem _ ?_
    rcases List.mem_cons.mp listed with rfl | below
    · refine List.mem_flatMap.mpr ⟨part, member, ?_⟩
      rw [placed_parts]
      exact List.mem_cons_self
    · obtain ⟨inner, inside, below⟩ := List.mem_flatMap.mp below
      exact List.mem_flatMap.mpr ⟨inner, inside, partsPlaced inner inside below⟩

/-- A node is listed below all of which it is a part, with everything below it. -/
theorem listing_sublist {top owner : Node S P} (listed : owner ∈ top.listing) :
    owner.listing.Sublist top.listing := by
  induction top using parts_induction with
  | step top partsHold =>
    rw [listing_parts top] at listed ⊢
    rcases List.mem_cons.mp listed with rfl | below
    · rw [← listing_parts]
    · obtain ⟨part, inside, below⟩ := List.mem_flatMap.mp below
      have within : part.listing.Sublist (top.parts.flatMap listing) :=
        List.sublist_flatten_of_mem (List.mem_map_of_mem inside)
      exact ((partsHold part inside below).trans within).cons top

/-- The numbers of the parts of a node are among its numbers, in the same order. -/
theorem parts_sublist (node : Node S P) : (node.parts.map Node.id).Sublist node.numbers := by
  rw [numbers_parts]
  refine List.Sublist.cons _ ?_
  induction node.parts with
  | nil => exact List.Sublist.refl _
  | cons first rest inductionHypothesis =>
    have own : [first.id].Sublist first.numbers :=
      List.singleton_sublist.mpr first.id_mem_numbers
    exact own.append inductionHypothesis

section Distinct

variable {parent : Option Nat} {top : Node S P}

/-- Two listed nodes with one number are the same node. -/
theorem listed_unique (distinct : top.numbers.Nodup) {first second : Node S P}
    (firstListed : first ∈ top.listing) (secondListed : second ∈ top.listing)
    (same : first.id = second.id) : first = second :=
  List.inj_on_of_nodup_map distinct firstListed secondListed same

/-- A node with a number stands at one place only. -/
theorem placed_unique (distinct : top.numbers.Nodup) {first second : Placed S P}
    (firstPlaced : first ∈ top.placed parent) (secondPlaced : second ∈ top.placed parent)
    (same : first.node.id = second.node.id) : first = second := by
  rw [← placed_numbers parent] at distinct
  exact List.inj_on_of_nodup_map distinct firstPlaced secondPlaced same

/-- A node is among the parts of another exactly when the other one is its parent. -/
theorem part_iff_parent (distinct : top.numbers.Nodup) {entry : Placed S P} {owner : Node S P}
    (placed : entry ∈ top.placed none) (listed : owner ∈ top.listing) :
    entry.node.id ∈ owner.parts.map Node.id ↔ entry.parent = some owner.id := by
  constructor
  · intro member
    obtain ⟨part, inside, same⟩ := List.mem_map.mp member
    have stands : entry = ⟨some owner.id, part⟩ :=
      placed_unique distinct placed (part_placed listed inside) same.symm
    rw [stands]
  · intro parent
    rcases placed_owner placed with rfl | ⟨other, otherListed, inside, otherParent⟩
    · cases parent
    · have sameNumber : other.id = owner.id := Option.some.inj (otherParent.symm.trans parent)
      obtain rfl := listed_unique distinct otherListed listed sameNumber
      exact List.mem_map_of_mem inside

/-- A node is listed once by its parent and by no other node. -/
theorem part_count (distinct : top.numbers.Nodup) {entry : Placed S P} {owner : Node S P}
    (placed : entry ∈ top.placed none) (listed : owner ∈ top.listing) :
    (owner.parts.map Node.id).count entry.node.id =
      if entry.parent = some owner.id then 1 else 0 := by
  have ownDistinct : owner.numbers.Nodup := distinct.sublist ((listing_sublist listed).map _)
  have partsDistinct : (owner.parts.map Node.id).Nodup :=
    ownDistinct.sublist owner.parts_sublist
  simp only [partsDistinct.count, part_iff_parent distinct placed listed]

end Distinct

end Node

namespace Tree

/-- The rows are sorted by their numbers. -/
theorem rows_sorted (tree : Tree S P) : (tree.rows.map Row.id).Pairwise (· ≤ ·) := by
  have sorted : tree.placed.Pairwise fun first second =>
      decide (first.node.id ≤ second.node.id) = true :=
    List.pairwise_mergeSort (by simp; omega) (by simp; omega) _
  rw [rows, List.map_map]
  exact List.pairwise_map.mpr (sorted.imp fun below => of_decide_eq_true below)

/-- The rows are those of the nodes that are placed under the root. -/
theorem mem_rows (root : Node S P) (next : Nat) (row : Row) :
    row ∈ Tree.rows { root, next } ↔ ∃ entry ∈ root.placed none, entry.row = row := by
  simp only [rows, placed, List.mem_map, List.mem_mergeSort, List.flatMap_nil, List.append_nil]

/-- The rows stand in the order of their numbers, at the places that the numbers say if none is left
out. -/
theorem rows_in_order (root : Node S P) (next : Nat) (all : root.numbers.Perm (List.range next)) :
    (Tree.rows { root, next }).map Row.id = List.range next := by
  have listed : ((Tree.rows { root, next }).map Row.id).Perm root.numbers := by
    have sorted : (Tree.placed { root, next }).Perm (root.placed none) := by
      simpa only [Tree.placed, List.flatMap_nil, List.append_nil] using List.mergeSort_perm _ _
    rw [← Node.placed_numbers none, rows, List.map_map]
    exact sorted.map _
  exact (listed.trans all).eq_of_pairwise (fun _ _ _ _ => Nat.le_antisymm) (rows_sorted _)
    (List.pairwise_le_range)

/-- The rows are as many as numbers have been taken, and stand in the order of their numbers. -/
theorem rows_numbered (root : Node S P) (next : Nat) (numbered : Numbered 0 [root] next) :
    (Tree.rows { root, next }).map Row.id = List.range next :=
  rows_in_order root next (by simpa [List.range_eq_range'] using numbered.taken.all)

end Tree

/-- What is below a part is less than what is below the whole. -/
theorem Node.part_room {node part : Node S P} (member : part ∈ node.parts) {bound : Nat}
    (room : node.listing.length ≤ bound + 1) : part.listing.length ≤ bound := by
  rw [listing_parts, List.length_cons] at room
  have within : part.listing.Sublist (node.parts.flatMap listing) :=
    List.sublist_flatten_of_mem (List.mem_map_of_mem member)
  exact within.length_le.trans (Nat.le_of_succ_le_succ room)

/-- A node is listed below itself, so there is room for it at least. -/
theorem Node.some_room {node : Node S P} {bound : Nat} (room : node.listing.length ≤ bound) :
    ∃ less, bound = less + 1 := by
  rw [listing_parts, List.length_cons] at room
  exact ⟨bound - 1, by omega⟩

/-- Going through the places of some nodes gives what each of the nodes gives. -/
theorem map_places {α : Type} {give : Nat → Option α} {given : Node S P → α}
    (nodes : List (Node S P)) (each : ∀ node ∈ nodes, give node.id = some (given node)) :
    (nodes.map Node.id).mapM give = some (nodes.map given) := by
  induction nodes with
  | nil => rfl
  | cons first rest inductionHypothesis =>
    obtain ⟨firstGiven, restGiven⟩ := List.forall_mem_cons.mp each
    simp [List.mapM_cons, firstGiven, inductionHypothesis restGiven]

/-- A walk from a node on meets what is listed below it, in the same order, if the table shows all
of it and the bound is not less than the number of nodes that it meets. -/
theorem walk_listing (rows : List Row) (node : Node S P)
    (shown : ∀ passed ∈ node.listing, ∃ row, rows[passed.id]? = some row ∧
      row.parts = passed.parts.map Node.id)
    (depth : Nat) (enough : node.listing.length ≤ depth) :
    walk rows depth node.id = some node.numbers := by
  induction node using Node.parts_induction generalizing depth with
  | step node partsWalked =>
    obtain ⟨depth, rfl⟩ := Node.some_room enough
    rw [Node.listing_parts] at shown
    obtain ⟨row, found, parts⟩ := shown node List.mem_cons_self
    have below := map_places node.parts fun part member =>
      partsWalked part member (fun passed listed => shown passed
        (List.mem_cons_of_mem _ (List.mem_flatMap.mpr ⟨part, member, listed⟩))) depth
        (Node.part_room member enough)
    rw [Node.numbers_parts]
    simp [walk, found, parts, below, List.flatMap]

/-- The rows of a node and of all that is below it, in the order of listing. -/
def Node.rows (parent : Option Nat) (node : Node S P) : List Row :=
  (node.placed parent).map Placed.row

/-- The rows of a node are its own and then those of its parts, effects first. -/
theorem Node.rows_parts (parent : Option Nat) (node : Node S P) :
    node.rows parent =
      Placed.row ⟨parent, node⟩ :: node.parts.flatMap (Node.rows (some node.id)) := by
  rw [rows, placed_parts, List.map_cons, List.map_flatMap]
  rfl

/-- The rows of a node carry its numbers, in their order. -/
theorem Node.rows_numbers (parent : Option Nat) (node : Node S P) :
    (node.rows parent).map Row.id = node.numbers := by
  rw [rows, List.map_map, ← placed_numbers parent]
  rfl

/-- A row shows of a kind only whether it is a layer, and of its parts only their numbers. So the
rows stay the same if every part is changed in a way that keeps its rows. -/
theorem Node.rows_congr {parent : Option Nat} {head : Head} {kind other : Kind S P}
    {effects children : List (Node S P)} (change inside : Node S P → Node S P)
    (sameSort : other.layer?.isSome = kind.layer?.isSome)
    (effectsKept : ∀ effect ∈ effects, ∀ parent, (change effect).rows parent = effect.rows parent)
    (childrenKept : ∀ child ∈ children, ∀ parent, (inside child).rows parent = child.rows parent) :
    (mk head other (effects.map change) (children.map inside)).rows parent =
      (mk head kind effects children).rows parent := by
  have numbers {nodes : List (Node S P)} {change : Node S P → Node S P}
      (kept : ∀ node ∈ nodes, ∀ parent, (change node).rows parent = node.rows parent) :
      (nodes.map change).map Node.id = nodes.map Node.id := by
    rw [List.map_map]
    refine List.map_congr_left fun node member => ?_
    have rows := kept node member none
    rw [rows_parts, rows_parts none node] at rows
    exact congrArg Row.id (List.cons.inj rows).1
  have below {nodes : List (Node S P)} {change : Node S P → Node S P}
      (kept : ∀ node ∈ nodes, ∀ parent, (change node).rows parent = node.rows parent) :
      (nodes.map change).flatMap (Node.rows (some head.id)) =
        nodes.flatMap (Node.rows (some head.id)) := by
    rw [List.flatMap_map]
    exact List.flatMap_congr fun node member => kept node member _
  have own : Placed.row ⟨parent, mk head other (effects.map change) (children.map inside)⟩ =
      Placed.row ⟨parent, mk head kind effects children⟩ := by
    simp only [Placed.row, Node.effects, Node.children, numbers effectsKept, numbers childrenKept,
      layer?, Node.kind, sameSort, Node.id, Node.name, Node.head]
  rw [rows_parts, rows_parts, own]
  simp only [parts, Node.effects, Node.children, List.flatMap_append]
  rw [show (mk head other (effects.map change) (children.map inside)).id = head.id from rfl,
    below effectsKept, below childrenKept]
  rfl

/-- The rows of a tree are those of its nodes, sorted by their numbers. -/
theorem Tree.rows_merged (tree : Tree S P) : tree.rows =
    (tree.root.rows none ++ tree.loose.flatMap fun entry => entry.2.rows (some entry.1)).mergeSort
      fun first second => decide (first.id ≤ second.id) := by
  have rows : (tree.root.rows none ++
      tree.loose.flatMap fun entry => entry.2.rows (some entry.1)) =
        (tree.root.placed none ++
          tree.loose.flatMap fun entry => entry.2.placed (some entry.1)).map Placed.row := by
    rw [List.map_append, List.map_flatMap]
    rfl
  rw [rows]
  exact List.map_mergeSort (f := Placed.row) fun _ _ _ _ => rfl

namespace Tree

variable {root : Node S P} {next : Nat}

/-- Every node that is listed is found by its number. -/
theorem row_listed (numbered : (Tree.rows { root, next }).map Row.id = List.range next)
    {node : Node S P} (listed : node ∈ root.listing) :
    ∃ parent, (Tree.rows { root, next })[node.id]? = some (Placed.row ⟨parent, node⟩) := by
  rw [← Node.placed_listing none] at listed
  obtain ⟨⟨parent, _⟩, placed, rfl⟩ := List.mem_map.mp listed
  have size : (Tree.rows { root, next }).length = next := by
    simpa using congrArg List.length numbered
  have member : Placed.row ⟨parent, _⟩ ∈ Tree.rows { root, next } :=
    (mem_rows root next _).mpr ⟨_, placed, rfl⟩
  exact ⟨parent, row_found (by rw [size, numbered]) member⟩

/-- A walk from a node meets what is below it in the order of listing. -/
theorem walk_listed (numbered : (Tree.rows { root, next }).map Row.id = List.range next)
    (enough : root.listing.length ≤ next) {node : Node S P} (listed : node ∈ root.listing) :
    walk (Tree.rows { root, next }) next node.id = some node.numbers := by
  have below := Node.listing_sublist listed
  refine walk_listing _ node (fun passed inside => ?_) next (Nat.le_trans below.length_le enough)
  obtain ⟨parent, found⟩ := row_listed numbered (below.subset inside)
  exact ⟨_, found, Placed.row_parts _⟩

/-- Looking up a name gives the first node on the way of a walk that bears the name. -/
theorem find_walked (numbered : (Tree.rows { root, next }).map Row.id = List.range next)
    {node : Node S P} (listed : node ∈ root.listing) (name : String) :
    (node.find? name).map Node.id = node.numbers.find? fun id =>
      (Tree.rows { root, next })[id]?.any fun row => row.name == name := by
  rw [Node.find_listing, Node.numbers, List.find?_map]
  refine congrArg _ (List.find?_congr fun passed inside => ?_)
  obtain ⟨parent, found⟩ := row_listed numbered ((Node.listing_sublist listed).subset inside)
  simp only [Function.comp_apply, found, Option.any_some]
  rfl

end Tree

variable [Scalar S] [Scalar P] [Widen S P] [Measure P]

/-- Of what may stand in a scene, only layers have effects. -/
theorem Node.Fits.effects_of_layer {place : Place} {top : Node S P} (fits : top.Fits place) :
    ∀ node ∈ top.listing, node.effects ≠ [] → node.layer?.isSome = true := by
  induction top generalizing place with
  | mk head kind effects children effectsHold childrenHold =>
    obtain ⟨-, effectsFit, childrenFit⟩ := fits.parts
    refine forall_listing.mpr ⟨fun present => ?_, fun effect member => ?_, fun child member => ?_⟩
    · cases fits with
      | layer => rfl
      | _ => exact absurd rfl present
    · obtain ⟨inside, stands⟩ := effectsFit effect member
      exact effectsHold effect member stands
    · obtain ⟨inside, stands⟩ := childrenFit child member
      exact childrenHold child member stands

/-- The table of a tree whose nodes have taken the numbers from zero on is consistent. -/
theorem Tree.rows_consistent (root : Node S P) (next : Nat) (own : root.id = 0)
    (numbered : Numbered 0 [root] next) (fits : root.Fits .scene) :
    Consistent (Tree.rows { root, next }) := by
  have placed := rows_numbered root next numbered
  have size : (Tree.rows { root, next }).length = next := by
    simpa using congrArg List.length placed
  have taken : Taken 0 root.numbers next := by simpa using numbered.taken
  have rising : root.Rising := numbered.rising root List.mem_cons_self
  have distinct : root.numbers.Nodup := taken.all.nodup_iff.mpr List.nodup_range'
  have listed {entry : Placed S P} (member : entry ∈ root.placed none) :
      entry.node ∈ root.listing :=
    Node.placed_listing none root ▸ List.mem_map_of_mem member
  have stood {row : Row} (member : row ∈ Tree.rows { root, next }) :
      ∃ entry ∈ root.placed none, entry.row = row := (mem_rows root next row).mp member
  constructor
  case placed => rw [size, placed]
  case listed =>
    intro row member id part
    obtain ⟨entry, stands, rfl⟩ := stood member
    have among : id ∈ entry.node.parts.map Node.id := entry.row_parts ▸ part
    have known : id ∈ root.numbers :=
      ((Node.listing_sublist (listed stands)).map _).subset
        (entry.node.parts_sublist.subset among)
    exact size ▸ ((taken.mem id).mp known).2
  case top =>
    intro row member
    obtain ⟨entry, stands, rfl⟩ := stood member
    constructor
    · intro alone
      rcases Node.placed_owner stands with rfl | ⟨owner, -, -, parent⟩
      · exact own
      · exact absurd (parent.symm.trans alone) (by simp)
    · intro zero
      have topPlaced : ⟨none, root⟩ ∈ root.placed none := by
        rw [Node.placed_parts]
        exact List.mem_cons_self
      have same := Node.placed_unique distinct stands topPlaced (Eq.trans zero own.symm)
      rw [same]
      rfl
  case earlier =>
    intro row member parent known
    obtain ⟨entry, stands, rfl⟩ := stood member
    rcases Node.placed_owner stands with rfl | ⟨owner, ownerListed, inside, ofOwner⟩
    · cases known
    · have same : owner.id = parent := Option.some.inj (ofOwner.symm.trans known)
      exact same ▸ rising owner ownerListed _ inside
  case once =>
    intro row member owner ownerMember
    obtain ⟨entry, stands, rfl⟩ := stood member
    obtain ⟨holder, holds, rfl⟩ := stood ownerMember
    rw [holder.row_parts]
    exact Node.part_count distinct stands (listed holds)
  case effects =>
    intro row member present
    obtain ⟨entry, stands, rfl⟩ := stood member
    exact fits.effects_of_layer entry.node (listed stands) (by simpa [Placed.row] using present)

/-- Bringing a node to a time changes no row, of itself or of a node below it. -/
theorem Node.update_rows (node : Node S P) (time : S) (around : Option (Trim.Window S))
    (parent : Option Nat) : (node.update time around).rows parent = node.rows parent := by
  induction node generalizing time around parent with
  | mk head kind effects children effectsKept childrenKept =>
    cases hidden : head.hidden with
    | true => rw [update_hidden _ _ _ _ _ _ hidden]
    | false =>
      cases container : kind.isContainer with
      | true =>
        rw [update_container _ _ _ _ _ _ hidden container]
        exact rows_congr _ _ (by cases kind <;> rfl)
          (fun effect member => effectsKept effect member _ _)
          fun child member => childrenKept child member _ _
      | false =>
        rw [update_leaf _ _ _ _ _ _ hidden container]
        have kept : (mk head (kind.updateLeaf time around) (effects.map fun effect => effect)
            (children.map fun child => child)).rows parent =
              (mk head kind effects children).rows parent :=
          rows_congr _ _ (by cases kind <;> rfl) (fun _ _ _ => rfl) fun _ _ _ => rfl
        simpa only [List.map_id'] using kept

/-- Bringing a tree to a time changes nothing that its table shows. -/
theorem Tree.update_rows (tree : Tree S P) (time : S) : (tree.update time).rows = tree.rows := by
  rw [rows_merged, rows_merged tree]
  simp only [update, Node.update_rows]

/-- After any times a tree shows the table that it showed before, and so does its root by itself. -/
theorem Tree.played_rows (times : List S) (root : Node S P) (next : Nat) :
    ∃ played : Node S P, times.foldl Tree.update { root, next } = { root := played, next } ∧
      played.rows none = root.rows none ∧
      Tree.rows { root := played, next } = Tree.rows { root, next } := by
  induction times generalizing root with
  | nil => exact ⟨root, rfl, rfl, rfl⟩
  | cons first rest inductionHypothesis =>
    obtain ⟨played, same, rows, table⟩ := inductionHypothesis (root.update first none)
    exact ⟨played, same, rows.trans (root.update_rows first none none),
      table.trans (Tree.update_rows { root, next } first)⟩

/-- The table of the tree of a document is consistent, and bringing the tree to any times leaves the
table as it is: names, parents, effects, the order of children and what is hidden. A walk goes no
deeper than there are nodes. From the root it meets every number once; from any node it goes in the
order in which nodes are listed, and looking up a name there gives the first node on the way that
bears the name. -/
theorem table_consistent (settings : Trim.Settings) (document : Document S) (times : List S) :
    let built : Tree S P := Tree.ofDocument settings document
    let tree := times.foldl Tree.update built
    Consistent tree.rows ∧ tree.rows.length = tree.size ∧ tree.rows = built.rows ∧
      tree.root.id = 0 ∧ (tree.root.listing.map Node.id).Perm (List.range tree.size) ∧
      ∀ node ∈ tree.root.listing, ∃ order, walk tree.rows tree.size node.id = some order ∧
        order = node.listing.map Node.id ∧
        ∀ name, (node.find? name).map Node.id =
          order.find? fun id => tree.rows[id]?.any fun row => row.name == name := by
  intro built tree
  let workshop : Workshop S := ⟨settings, document.assets⟩
  have taken : Numbered 0 [built.root] built.next :=
    Build.document_numbered workshop document.layers
  have numbered : built.rows.map Row.id = List.range built.next :=
    Tree.rows_numbered built.root built.next taken
  obtain ⟨root, same, rows, table⟩ := Tree.played_rows times built.root built.next
  rw [show tree = { root, next := built.next } from same]
  have numbers : root.numbers = built.root.numbers := by
    rw [← Node.rows_numbers none, rows, Node.rows_numbers]
  have all : root.numbers.Perm (List.range built.next) := by
    simpa [numbers, List.range_eq_range'] using taken.taken.all
  have enough : root.listing.length ≤ built.next := by
    simpa [Node.numbers] using all.length_eq.le
  have top : root.id = 0 := by
    rw [Node.numbers_parts, Node.numbers_parts built.root] at numbers
    exact (List.cons.inj numbers).1
  have kept : (Tree.rows { root, next := built.next }).map Row.id = List.range built.next :=
    table ▸ numbered
  refine ⟨?_, ?_, table, top, all, fun node listed => ?_⟩
  · exact table ▸ Tree.rows_consistent built.root built.next rfl taken
      (Build.document_fits workshop document.layers)
  · simpa [Tree.size] using congrArg List.length kept
  · exact ⟨node.numbers, Tree.walk_listed kept enough listed, rfl, Tree.find_walked kept listed⟩

end VectorMotion.Scene
