import Mathlib.Data.List.Forall2
import VectorMotion.Proofs.Scene.Table
import VectorMotion.Report

/-!
# Looking up names

A name is looked up from a node on: the node itself, then its effects with what is below them, then
its children. The search stops at the first node that bears the name, so that it never lists what it
passes. All the same it is the head of a listing: what it finds is the first node of that name in
the order of listing, and it finds nothing only if there is no such node at all.

The order of listing is the one in which a report shows the nodes below the root, line by line. A
table can be searched in the same way, by following its numbers. That no number is followed in vain,
and that no node of the scene is out of reach, comes from what is known of the tables of scenes.
-/

namespace VectorMotion.Scene

variable {S P : Type}

/-- The first of some nodes that bears a name. -/
structure FirstNamed (name : String) (nodes : List (Node S P)) (node : Node S P) : Prop where
  bears : node.name = name
  first : ∃ before after, nodes = before ++ node :: after ∧ ∀ other ∈ before, other.name ≠ name

namespace Node

/-- What is found is the first node of that name in the order of listing. -/
theorem find_first (name : String) (top node : Node S P) :
    top.find? name = some node ↔ FirstNamed name top.listing node := by
  rw [find_listing, List.find?_eq_some_iff_append]
  simp only [beq_iff_eq, Bool.not_eq_true', beq_eq_false_iff_ne]
  exact ⟨fun ⟨bears, first⟩ => ⟨bears, first⟩, fun ⟨bears, first⟩ => ⟨bears, first⟩⟩

/-- Nothing is found only where no node that is listed bears the name. -/
theorem find_none (name : String) (top : Node S P) :
    top.find? name = none ↔ ∀ node ∈ top.listing, node.name ≠ name := by
  rw [find_listing, List.find?_eq_none]
  simp only [beq_iff_eq]
  exact Iff.rfl

end Node

/-! ## Following numbers -/

/-- The number of the first row with a name, from the row with a number on. Effects are searched
before children, and neither as soon as the name has been found. A search fails where it comes upon
a number that is not in the table, or goes deeper than a bound. -/
def search (rows : List Row) (name : String) : Nat → Nat → Option Nat
  | 0, _ => none
  | depth + 1, id => do
    let row ← rows[id]?
    if row.name == name then return id
    match row.effects.findSome? (search rows name depth) with
    | some found => return found
    | none => row.children.findSome? (search rows name depth)

/-- Searching the rows of some nodes one after the other is searching the nodes. -/
theorem search_among (rows : List Row) (name : String) (depth : Nat) (nodes : List (Node S P))
    (each : ∀ node ∈ nodes, search rows name depth node.id = (node.find? name).map Node.id) :
    (nodes.map Node.id).findSome? (search rows name depth) =
      (Node.findAmong? name nodes).map Node.id := by
  induction nodes with
  | nil => rfl
  | cons first rest inductionHypothesis =>
    have behind := inductionHypothesis fun node member => each node (List.mem_cons_of_mem _ member)
    rw [List.map_cons, List.findSome?_cons, each first List.mem_cons_self, behind, Node.findAmong?]
    cases first.find? name <;> rfl

/-- A search from a node on finds what the node finds, if the table shows all that is below it and
the bound is not less than the number of nodes there. -/
theorem search_found (rows : List Row) (name : String) (node : Node S P)
    (shown : ∀ passed ∈ node.listing, ∃ parent,
      rows[passed.id]? = some (Placed.row ⟨parent, passed⟩))
    (depth : Nat) (enough : node.listing.length ≤ depth) :
    search rows name depth node.id = (node.find? name).map Node.id := by
  induction node generalizing depth with
  | mk head kind effects children effectsFound childrenFound =>
    obtain ⟨own, inEffects, inChildren⟩ := Node.forall_listing.mp shown
    obtain ⟨parent, found⟩ := own
    have found : rows[head.id]? =
        some (Placed.row ⟨parent, .mk head kind effects children⟩) := found
    rw [Node.listing_parts, List.length_cons] at enough
    cases depth with
    | zero => omega
    | succ depth =>
      have room {part : Node S P} (member : part ∈ effects ++ children) :
          part.listing.length ≤ depth :=
        Nat.le_trans
          (List.sublist_flatten_of_mem (List.mem_map_of_mem member)).length_le
          (Nat.le_of_succ_le_succ enough)
      have inFront := search_among rows name depth effects fun effect member =>
        effectsFound effect member (inEffects effect member) depth
          (room (List.mem_append_left _ member))
      have behind := search_among rows name depth children fun child member =>
        childrenFound child member (inChildren child member) depth
          (room (List.mem_append_right _ member))
      show search rows name (depth + 1) head.id = _
      simp only [search, found, Option.bind_eq_bind, Option.bind_some, Placed.row, Node.name,
        Node.head, Node.effects, Node.children, inFront, behind, Node.find?]
      cases head.name == name with
      | true => rfl
      | false => cases Node.findAmong? name effects <;> rfl

/-! ## Lines of a report -/

/-- What is shown of some nodes, one after the other, is shown of all that is listed below them. -/
theorem nodes_lines {shown : String → Node S P → Prop} (depth : Nat) (nodes : List (Node S P))
    (each : ∀ node ∈ nodes, List.Forall₂ shown (Report.nodeLines depth node) node.listing) :
    List.Forall₂ shown (Report.nodesLines depth nodes) (nodes.flatMap Node.listing) := by
  induction nodes with
  | nil => exact .nil
  | cons first rest inductionHypothesis =>
    obtain ⟨firstShown, restShown⟩ := List.forall_mem_cons.mp each
    exact List.rel_append firstShown (inductionHypothesis restShown)

/-- The lines of a node are those of the nodes below it in the order of listing, each as much
further in as there are nodes on the way to it. -/
theorem node_lines (depth : Nat) (node : Node S P) :
    List.Forall₂ (fun line listed => ∃ path, Node.Way node path listed ∧
        line = Report.nodeLine (depth + path.length) listed.head listed.kind)
      (Report.nodeLines depth node) node.listing := by
  induction node generalizing depth with
  | mk head kind effects children effectsShown childrenShown =>
    set top := Node.mk head kind effects children
    have deeper {part : Node S P}
        (below : ∀ path listed, Node.Way part path listed → Node.Way top (top :: path) listed)
        (shown : List.Forall₂ (fun line listed => ∃ path, Node.Way part path listed ∧
          line = Report.nodeLine (depth + 1 + path.length) listed.head listed.kind)
          (Report.nodeLines (depth + 1) part) part.listing) :
        List.Forall₂ (fun line listed => ∃ path, Node.Way top path listed ∧
          line = Report.nodeLine (depth + path.length) listed.head listed.kind)
          (Report.nodeLines (depth + 1) part) part.listing := by
      refine shown.imp fun line listed ⟨path, way, same⟩ => ⟨top :: path, below path listed way, ?_⟩
      rw [same, List.length_cons, Nat.add_right_comm, Nat.add_assoc]
    rw [Report.nodeLines, Node.listing, Node.listingAll_flatMap, Node.listingAll_flatMap]
    refine .cons ⟨[], .here top, rfl⟩ (List.rel_append ?_ ?_)
    · exact nodes_lines _ effects fun effect member =>
        deeper (fun path listed way => .effect top effect listed path member way)
          (effectsShown effect member (depth + 1))
    · exact nodes_lines _ children fun child member =>
        deeper (fun path listed way => .child top child listed path member way)
          (childrenShown child member (depth + 1))

/-! ## Scenes of documents -/

namespace Tree

/-- A tree with nothing beside it holds the nodes that are placed under its root. -/
theorem mem_placed (root : Node S P) (next : Nat) (entry : Placed S P) :
    entry ∈ Tree.placed { root, next } ↔ entry ∈ root.placed none := by
  simp only [placed, List.mem_mergeSort, List.flatMap_nil, List.append_nil]

/-- Following the numbers of a table finds what the node with a number finds, and nothing where
there is no such node. -/
theorem search_placed {root : Node S P} {next : Nat}
    (numbered : (Tree.rows { root, next }).map Row.id = List.range next)
    (enough : root.listing.length ≤ next) (name : String) (id : Nat) :
    search (Tree.rows { root, next }) name next id =
      (Tree.at? { root, next } id).bind fun entry => (entry.node.find? name).map Node.id := by
  cases found : Tree.at? { root, next } id with
  | some entry =>
    have own : entry.node.id = id := by simpa using List.find?_some found
    have stands := (mem_placed root next entry).mp (List.mem_of_find?_eq_some found)
    have listed : entry.node ∈ root.listing :=
      Node.placed_listing none root ▸ List.mem_map_of_mem stands
    have below := Node.listing_sublist listed
    rw [← own, Option.bind_some]
    exact search_found _ name entry.node
      (fun passed inside => row_listed numbered (below.subset inside)) next
      (Nat.le_trans below.length_le enough)
  | none =>
    have missing : (Tree.rows { root, next })[id]? = none := by
      rw [Option.eq_none_iff_forall_ne_some]
      intro row stored
      obtain ⟨entry, stands, rfl⟩ := List.mem_map.mp (List.mem_of_getElem? stored)
      have number : ((Tree.rows { root, next }).map Row.id)[id]? = some entry.node.id := by
        rw [List.getElem?_map, stored]
        rfl
      rw [numbered] at number
      obtain ⟨_, number⟩ := List.getElem?_eq_some_iff.mp number
      have same : entry.node.id = id := by simpa using number.symm
      exact absurd same (by simpa using List.find?_eq_none.mp found entry stands)
    cases next with
    | zero => rfl
    | succ next => simp [search, missing]

variable [Scalar S] [Scalar P] [Widen S P] [Measure P]

/-- The tree of a document after any times: nothing is beside it, its rows stand at the places of
their numbers, it has no more nodes than numbers have been taken, and its root has no effects. -/
theorem played_placed (settings : Trim.Settings) (document : Document S) (times : List S) :
    ∃ (root : Node S P) (next : Nat),
      times.foldl Tree.update (Tree.ofDocument settings document) = { root, next } ∧
      (Tree.rows { root, next }).map Row.id = List.range next ∧
      root.listing.length ≤ next ∧ root.effects = [] := by
  set built : Tree S P := Tree.ofDocument settings document
  have taken : Numbered 0 [built.root] built.next :=
    Build.document_numbered ⟨settings, document.assets⟩ document.layers
  obtain ⟨root, same, rows, table⟩ := Tree.played_rows times built.root built.next
  refine ⟨root, built.next, same, table ▸ Tree.rows_numbered built.root built.next taken, ?_, ?_⟩
  · have numbers : root.numbers = built.root.numbers := by
      rw [← Node.rows_numbers none, rows, Node.rows_numbers]
    have all : root.numbers.Perm (List.range built.next) := by
      simpa [numbers, List.range_eq_range'] using taken.taken.all
    simpa [Node.numbers] using all.length_eq.le
  · have bare : built.root.effects = [] := rfl
    rw [Node.rows_parts, Node.rows_parts none built.root] at rows
    have same : root.effects.map Node.id = built.root.effects.map Node.id :=
      congrArg Row.effects (List.cons.inj rows).1
    rwa [bare, List.map_nil, List.map_eq_nil_iff] at same

end Tree

variable [Scalar S] [Scalar P] [Widen S P] [Measure P]

/-- Looking up a name in the tree of a document, after any times, gives the first node of that name
in the order of listing, which is the root and then the order in which a report shows all other
nodes, each on a line that is indented by the number of nodes between it and the root. Nothing is
found exactly if no node of the scene, wherever it stands, bears the name. From any node on the
first one of its own listing is found, so one that is below it, and following the numbers of the
table gives the same. -/
theorem names_found_as_listed (settings : Trim.Settings) (document : Document S) (times : List S)
    (name : String) :
    let tree : Tree S P := times.foldl Tree.update (Tree.ofDocument settings document)
    (∀ node, tree.find? name = some node ↔ FirstNamed name tree.root.listing node) ∧
      (tree.find? name = none ↔ ∀ entry ∈ tree.placed, entry.node.name ≠ name) ∧
      (∃ below, tree.root.listing = tree.root :: below ∧
        List.Forall₂ (fun line node => ∃ path, Node.Way tree.root (tree.root :: path) node ∧
            line = Report.nodeLine path.length node.head node.kind)
          (Report.nodesLines 0 tree.root.children) below) ∧
      (∀ entry ∈ tree.placed, ∀ node,
        entry.node.find? name = some node ↔ FirstNamed name entry.node.listing node) ∧
      ∀ id, search tree.rows name tree.size id =
        (tree.at? id).bind fun entry => (entry.node.find? name).map Node.id := by
  intro tree
  obtain ⟨root, next, same, numbered, enough, bare⟩ :=
    Tree.played_placed (P := P) settings document times
  rw [show tree = { root, next } from same]
  refine ⟨root.find_first name, ?_, ?_, fun entry _ => entry.node.find_first name,
    Tree.search_placed numbered enough name⟩
  case refine_1 =>
    rw [Tree.find?, Node.find_none, ← Node.placed_listing none root]
    simp only [List.forall_mem_map, Tree.mem_placed]
  case refine_2 =>
    refine ⟨root.children.flatMap Node.listing, ?_, nodes_lines 0 _ fun child member => ?_⟩
    · rw [Node.listing_parts, Node.parts, bare, List.nil_append]
    · refine (node_lines 0 child).imp ?_
      rintro line node ⟨path, way, shown⟩
      exact ⟨path, .child root child node path member way, by rw [shown, Nat.zero_add]⟩

end VectorMotion.Scene
