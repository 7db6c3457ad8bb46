import VectorMotion.Proofs.Arena.Updating

/-!
# The cells of a scene are consistent

An arena carries a tree if it holds the tree and has no more cells than the tree has nodes. The
arena of a document carries its tree, and goes on doing so whatever times both are brought to. So
everything that is known of the table of a tree holds of the cells: a parent stands in front of all
that belongs to it, and every cell but the first is named once, by its parent and by no other.

That is why following places comes to an end. Each of the walks that go through an arena is bounded
by the number of cells, and none of them ever reaches that bound.
-/

namespace VectorMotion.Scene

variable {S P : Type}

namespace Arena

/-- The row of a table that a cell makes at a place. -/
def rowAt (id : Nat) (cell : Cell S P) : Row :=
  { id
    name := cell.name
    matchName := cell.matchName
    hidden := cell.hidden
    layer := cell.kind.layer?.isSome
    parent := cell.parent
    effects := cell.effects
    children := cell.children }

/-- The table that the cells make. -/
def rows (arena : Arena S P) : List Row := arena.mapIdx rowAt

/-- An arena that holds a tree and nothing besides. -/
structure Carries (arena : Arena S P) (root : Node S P) : Prop where
  held : arena.Holds none root
  first : root.id = 0
  numbers : root.numbers.Perm (List.range arena.length)

namespace Carries

variable {arena : Arena S P} {root : Node S P} (carries : arena.Carries root)
include carries

/-- There is room for the whole tree. -/
theorem room : root.listing.length ≤ arena.length := by
  simpa [Node.numbers] using carries.numbers.length_eq.le

/-- No number is taken twice. -/
theorem distinct : root.numbers.Nodup :=
  carries.numbers.nodup_iff.mpr List.nodup_range

/-- The nodes of the tree stand in the order of their numbers, each where its number says. -/
theorem place {id : Nat} {entry : Placed S P}
    (found : (Tree.placed { root, next := arena.length })[id]? = some entry) :
    entry.node.id = id := by
  have order := Tree.rows_in_order root arena.length carries.numbers
  have number : ((Tree.rows { root, next := arena.length }).map Row.id)[id]? =
      some entry.node.id := by
    rw [List.getElem?_map, Tree.rows, List.getElem?_map, found]
    rfl
  rw [order] at number
  obtain ⟨_, number⟩ := List.getElem?_eq_some_iff.mp number
  simpa using number.symm

/-- The cells are those of the nodes of the tree, in the order of their numbers. -/
theorem cells : arena = (Tree.placed { root, next := arena.length }).map Placed.cell := by
  have order := Tree.rows_in_order root arena.length carries.numbers
  have size : (Tree.placed { root, next := arena.length }).length = arena.length := by
    simpa [Tree.rows] using congrArg List.length order
  refine List.ext_getElem? fun id => ?_
  rw [List.getElem?_map]
  cases found : (Tree.placed { root, next := arena.length })[id]? with
  | none =>
    have short := List.getElem?_eq_none_iff.mp found
    exact List.getElem?_eq_none_iff.mpr (size ▸ short)
  | some entry =>
    have stands := (Tree.mem_placed root arena.length entry).mp (List.mem_of_getElem? found)
    exact carries.place found ▸ carries.held entry stands

/-- The cells make the table of the tree. -/
theorem rows_eq : arena.rows = Tree.rows { root, next := arena.length } := by
  refine List.ext_getElem? fun id => ?_
  rw [rows, List.getElem?_mapIdx, Tree.rows, List.getElem?_map]
  conv_lhs => rw [carries.cells, List.getElem?_map]
  cases found : (Tree.placed { root, next := arena.length })[id]? with
  | none => rfl
  | some entry =>
    obtain rfl := carries.place found
    rfl

/-- A walk from a place goes through the nodes below it in the order of listing. -/
theorem walked {node : Node S P} (listed : node ∈ root.listing) :
    walk arena.rows arena.length node.id = some node.numbers := by
  rw [carries.rows_eq]
  exact Tree.walk_listed (Tree.rows_in_order root _ carries.numbers) carries.room listed

/-- Looking up a name from a place on finds the first place with the name on the walk. -/
theorem searched {node : Node S P} (listed : node ∈ root.listing) (name : String) :
    search arena name arena.length node.id =
      some (node.numbers.find? fun id => arena[id]?.any fun cell => cell.name == name) := by
  obtain ⟨owner, held⟩ := carries.held.below listed
  rw [search_held held name ((Node.listing_sublist listed).length_le.trans carries.room),
    Node.find_listing, Node.numbers, List.find?_map]
  refine congrArg some (congrArg _ (List.find?_congr fun passed inside => ?_))
  obtain ⟨owner, held⟩ := held.below inside
  simp only [Function.comp_apply, ((holds_iff ..).mp held).1, Option.any_some]
  rfl

/-- Drawing gives the calls of the tree. -/
theorem drawn : arena.calls = some (Render.Call.ofRoot root) := by
  rw [calls, ← carries.first, calls_held carries.held carries.room,
    layers_held carries.held carries.first]
  rfl

/-- Reporting gives the lines of the nodes below the root. -/
theorem reported : arena.lines = some (Report.nodesLines 0 root.children) := by
  obtain ⟨head, kind, effects, children⟩ := root
  obtain ⟨-, -, childrenHeld⟩ := carries.held.parts
  have each := map_places children fun child member =>
    lines_held (childrenHeld child member) 0
      (Node.part_room (List.mem_append_right _ member) (Nat.le_succ_of_le carries.room))
  have listed : childrenAt 0 arena = children.map Node.id :=
    carries.first ▸ children_held carries.held
  rw [lines, listed, each, nodesLines_flatMap]
  rfl

variable [Scalar S] [Scalar P] [Widen S P] [Measure P]

/-- The arena follows the tree to any time. -/
theorem updated (fits : root.Fits .scene) (time : S) :
    ∃ later, arena.update time = some later ∧ later.Carries (root.update time none) := by
  obtain ⟨later, made, changed, held⟩ :=
    update_held fits carries.held carries.distinct carries.room time none
  rw [carries.first] at made
  refine ⟨later, made, held, (Node.update_id ..).trans carries.first, ?_⟩
  rw [update_numbers, changed.size]
  exact carries.numbers

end Carries

variable [Scalar S] [Scalar P] [Widen S P]

/-- The arena of a document carries its tree. -/
theorem document_carried (settings : Trim.Settings) (document : Document S) :
    (ofDocument settings document : Arena S P).Carries
      (Tree.ofDocument settings document).root := by
  obtain ⟨held, size⟩ := document_held (P := P) settings document
  set tree : Tree S P := Tree.ofDocument settings document
  have numbered : Numbered 0 [tree.root] tree.next :=
    Build.document_numbered ⟨settings, document.assets⟩ document.layers
  refine ⟨held, rfl, ?_⟩
  rw [size]
  simpa [List.range_eq_range'] using numbered.taken.all

variable [Measure P]

/-- The arena goes on carrying the tree, whatever times both are brought to. -/
theorem Carries.played (times : List S) {arena : Arena S P} {root : Node S P}
    (carries : arena.Carries root) (fits : root.Fits .scene) :
    ∃ later last, times.foldlM (fun arena time => update time arena) arena = some later ∧
      times.foldl Tree.update { root, next := arena.length } =
        { root := last, next := later.length } ∧ later.Carries last := by
  induction times generalizing arena root with
  | nil => exact ⟨arena, root, rfl, rfl, carries⟩
  | cons first rest inductionHypothesis =>
    obtain ⟨between, made, still⟩ := carries.updated fits first
    have sameSize : between.length = arena.length := by
      have numbers := update_numbers root first none
      simpa [numbers, carries.numbers.length_eq] using still.numbers.length_eq.symm
    obtain ⟨later, last, restMade, same, lastCarried⟩ :=
      inductionHypothesis still (fits.update first none)
    refine ⟨later, last, by simp [made, restMade], ?_, lastCarried⟩
    rw [← same, sameSize]
    rfl

end Arena

variable [Scalar S] [Scalar P] [Widen S P] [Measure P]

/-- The cells of a document's scene, once they have been built and after any times, are consistent.
No time changes the table that they make: names, parents, effects, the order of children and what is
hidden. Bringing them to a time always comes to an end, and so does following the places from any
cell on: from the first cell on every place is met once, and looking up a name gives the first place
with that name that is met. Drawing and reporting come to an end too. In all this the cells do what
the tree of the document does, of which they are the nodes in the order of their numbers. -/
theorem arena_consistent (settings : Trim.Settings) (document : Document S) (times : List S) :
    let built : Arena S P := Arena.ofDocument settings document
    let tree : Tree S P := times.foldl Tree.update (Tree.ofDocument settings document)
    ∃ arena, times.foldlM (fun arena time => Arena.update time arena) built = some arena ∧
      Consistent arena.rows ∧ arena.rows = built.rows ∧
      (∃ order, walk arena.rows arena.length 0 = some order ∧
        order.Perm (List.range arena.length)) ∧
      (∀ id < arena.length, ∃ order, walk arena.rows arena.length id = some order ∧
        order.Nodup ∧ ∀ name, Arena.search arena name arena.length id =
          some (order.find? fun id => arena[id]?.any fun cell => cell.name == name)) ∧
      Arena.calls arena = some (Render.Call.ofRoot tree.root) ∧
      Arena.lines arena = some (Report.nodesLines 0 tree.root.children) ∧
      arena = tree.placed.map Placed.cell := by
  intro built tree
  have carried : built.Carries (Tree.ofDocument settings document).root :=
    Arena.document_carried settings document
  have size : built.length = (Tree.ofDocument settings document : Tree S P).next :=
    (Arena.document_held settings document).2
  obtain ⟨arena, root, made, same, carries⟩ := carried.played times
    (Build.document_fits ⟨settings, document.assets⟩ document.layers)
  rw [size] at same
  have same : tree = { root, next := arena.length } := same
  obtain ⟨consistent, -, unchanged, -⟩ := table_consistent (P := P) settings document times
  have rows : arena.rows = tree.rows := carries.rows_eq.trans (congrArg Tree.rows same.symm)
  have builtRows : built.rows = (Tree.ofDocument settings document : Tree S P).rows :=
    carried.rows_eq.trans (by rw [size]; rfl)
  have top : root ∈ root.listing := by
    rw [Node.listing_parts]
    exact List.mem_cons_self
  refine ⟨arena, made, rows ▸ consistent, rows.trans (unchanged.trans builtRows.symm),
    ⟨root.numbers, carries.first ▸ carries.walked top, carries.numbers⟩, fun id inside => ?_,
    same ▸ carries.drawn, same ▸ carries.reported, same ▸ carries.cells⟩
  obtain ⟨node, listed, rfl⟩ :=
    List.mem_map.mp (carries.numbers.mem_iff.mpr (List.mem_range.mpr inside))
  exact ⟨node.numbers, carries.walked listed,
    carries.distinct.sublist ((Node.listing_sublist listed).map _), carries.searched listed⟩

end VectorMotion.Scene
