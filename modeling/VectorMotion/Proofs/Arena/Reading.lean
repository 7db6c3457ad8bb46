import Mathlib.Data.List.Forall2
import VectorMotion.Proofs.Render.Grammar
import VectorMotion.Proofs.Scene.Search
import VectorMotion.Arena

/-!
# Reading a scene from its cells

An arena holds a node if the cell of every node below it, and its own, stands at the place of its
number. Then following places from there on is walking down the node: looking up a name finds what
the node finds, drawing gives the same calls and reporting the same lines. Each comes to an end
within as many nested steps as there are nodes, so the bound on them is never felt.

Expressions are looked up by names. They mean the same on the arena as in the tree.
-/

namespace VectorMotion.Scene

open Json

variable {S P : Type}

/-- The cell of a node that stands in a tree. -/
def Placed.cell (placed : Placed S P) : Cell S P :=
  { name := placed.node.name
    matchName := placed.node.head.matchName
    hidden := placed.node.head.hidden
    kind := placed.node.kind
    parent := placed.parent
    effects := placed.node.effects.map Node.id
    children := placed.node.children.map Node.id }

section Cells

variable (parent : Option Nat) (head : Head) (kind : Kind S P) (effects children : List (Node S P))

/-- At the place of its number a cell has the head of its node. -/
@[simp] theorem Placed.cell_head :
    (Placed.cell ⟨parent, .mk head kind effects children⟩).head head.id = head := rfl

/-- The cell of a node has the name of the node. -/
@[simp] theorem Placed.cell_name :
    (Placed.cell ⟨parent, .mk head kind effects children⟩).name = head.name := rfl

/-- The cell of a node is hidden if the node is. -/
@[simp] theorem Placed.cell_hidden :
    (Placed.cell ⟨parent, .mk head kind effects children⟩).hidden = head.hidden := rfl

/-- The cell of a node has the kind of the node. -/
@[simp] theorem Placed.cell_kind :
    (Placed.cell ⟨parent, .mk head kind effects children⟩).kind = kind := rfl

/-- A cell names the effects of its node by their places. -/
@[simp] theorem Placed.cell_effects :
    (Placed.cell ⟨parent, .mk head kind effects children⟩).effects = effects.map Node.id := rfl

/-- A cell names the children of its node by their places. -/
@[simp] theorem Placed.cell_children :
    (Placed.cell ⟨parent, .mk head kind effects children⟩).children = children.map Node.id := rfl

end Cells

namespace Arena

/-- The cells of a node, which belongs to a parent, and of all that is below it stand at their
places. -/
def Holds (arena : Arena S P) (parent : Option Nat) (node : Node S P) : Prop :=
  ∀ entry ∈ node.placed parent, arena[entry.node.id]? = some entry.cell

/-- A node is held if its own cell is in its place and all its parts are held. -/
theorem holds_iff (arena : Arena S P) (parent : Option Nat) (node : Node S P) :
    arena.Holds parent node ↔ arena[node.id]? = some (Placed.cell ⟨parent, node⟩) ∧
      ∀ part ∈ node.parts, arena.Holds (some node.id) part := by
  simp only [Holds, Node.placed_parts parent node, List.forall_mem_cons, List.mem_flatMap]
  exact and_congr Iff.rfl ⟨fun each part member entry inside => each entry ⟨part, member, inside⟩,
    fun each entry ⟨part, member, inside⟩ => each part member entry inside⟩

/-- What is held stays held as long as its own places keep their cells. -/
theorem Holds.kept {arena later : Arena S P} {parent : Option Nat} {node : Node S P}
    (held : arena.Holds parent node) (same : ∀ id ∈ node.numbers, later[id]? = arena[id]?) :
    later.Holds parent node := by
  intro entry member
  rw [same _ (Node.placed_numbers parent node ▸ List.mem_map_of_mem member)]
  exact held entry member

/-- A place of what is held is one of the arena. -/
theorem Holds.inside {arena : Arena S P} {parent : Option Nat} {node : Node S P}
    (held : arena.Holds parent node) {id : Nat} (member : id ∈ node.numbers) :
    id < arena.length := by
  rw [← Node.placed_numbers parent] at member
  obtain ⟨entry, placed, rfl⟩ := List.mem_map.mp member
  exact (List.getElem?_eq_some_iff.mp (held entry placed)).1

/-- With a node all is held that is below it. -/
theorem Holds.below {arena : Arena S P} {parent : Option Nat} {node listed : Node S P}
    (held : arena.Holds parent node) (member : listed ∈ node.listing) :
    ∃ owner, arena.Holds owner listed := by
  induction node using Node.parts_induction generalizing parent with
  | step node partsHold =>
    rw [Node.listing_parts] at member
    rcases List.mem_cons.mp member with rfl | inside
    · exact ⟨parent, held⟩
    · obtain ⟨part, isPart, inside⟩ := List.mem_flatMap.mp inside
      exact partsHold part isPart (((holds_iff ..).mp held).2 part isPart) inside

/-- The effects and the children of what is held. -/
theorem Holds.parts {arena : Arena S P} {parent : Option Nat} {head : Head} {kind : Kind S P}
    {effects children : List (Node S P)}
    (held : arena.Holds parent (.mk head kind effects children)) :
    arena[head.id]? = some (Placed.cell ⟨parent, .mk head kind effects children⟩) ∧
      (∀ effect ∈ effects, arena.Holds (some head.id) effect) ∧
      ∀ child ∈ children, arena.Holds (some head.id) child := by
  obtain ⟨own, parts⟩ := (holds_iff ..).mp held
  exact ⟨own, fun effect member => parts effect (List.mem_append_left _ member),
    fun child member => parts child (List.mem_append_right _ member)⟩

/-- The children of a node that is held are listed at its place. -/
theorem children_held {arena : Arena S P} {parent : Option Nat} {node : Node S P}
    (held : arena.Holds parent node) : childrenAt node.id arena = node.children.map Node.id := by
  rw [childrenAt, ((holds_iff ..).mp held).1]
  rfl

/-! ## Names -/

/-- Searching some nodes one after the other, as long as nothing has been found. -/
theorem search_nodes (arena : Arena S P) (name : String) (bound : Nat) (nodes : List (Node S P))
    (each : ∀ node ∈ nodes, search arena name bound node.id =
      some ((node.find? name).map Node.id)) :
    (nodes.map Node.id).findSomeM? (search arena name bound) =
      some ((Node.findAmong? name nodes).map Node.id) := by
  induction nodes with
  | nil => rfl
  | cons first rest inductionHypothesis =>
    obtain ⟨firstFound, restFound⟩ := List.forall_mem_cons.mp each
    rw [List.map_cons, List.findSomeM?, firstFound, Node.findAmong?]
    cases first.find? name with
    | none => exact inductionHypothesis restFound
    | some found => rfl

/-- A name that is looked up from the place of a node on is found where the node finds it. -/
theorem search_held {arena : Arena S P} {parent : Option Nat} {node : Node S P}
    (held : arena.Holds parent node) (name : String) {bound : Nat}
    (room : node.listing.length ≤ bound) :
    search arena name bound node.id = some ((node.find? name).map Node.id) := by
  induction node generalizing parent bound with
  | mk head kind effects children effectsFound childrenFound =>
    obtain ⟨bound, rfl⟩ := Node.some_room room
    obtain ⟨own, effectsHeld, childrenHeld⟩ := held.parts
    have inFront := search_nodes arena name bound effects fun effect member =>
      effectsFound effect member (effectsHeld effect member)
        (Node.part_room (List.mem_append_left _ member) room)
    have behind := search_nodes arena name bound children fun child member =>
      childrenFound child member (childrenHeld child member)
        (Node.part_room (List.mem_append_right _ member) room)
    show search arena name (bound + 1) head.id = _
    simp only [search, own, Placed.cell_name, Placed.cell_effects, Placed.cell_children, inFront,
      behind, Node.find?, Option.bind_eq_bind, Option.bind_some]
    cases head.name == name with
    | true => rfl
    | false => cases Node.findAmong? name effects <;> rfl

/-- From a node that is held a name is found where the node finds it, whatever else there is. -/
theorem find_held {arena : Arena S P} {parent : Option Nat} {node : Node S P}
    (held : arena.Holds parent node) (room : node.listing.length ≤ arena.length) (name : String) :
    find? arena name node.id = (node.find? name).map Node.id := by
  rw [find?, search_held held name room]
  rfl

/-! ## Expressions -/

/-- What a reference means among all that is below the root is the same in the arena. -/
theorem authored_held {arena : Arena S P} {root : Node S P} (held : arena.Holds none root)
    (first : root.id = 0) (room : root.listing.length ≤ arena.length) (reference : Reference) :
    authored? arena reference = Expression.authored? root reference := by
  rw [authored?, Expression.authored?, ← first, find_held held room]
  cases found : root.find? reference.effect with
  | none => rfl
  | some effect =>
    rw [Node.find_listing] at found
    have listed := List.mem_of_find?_eq_some found
    obtain ⟨owner, effectHeld⟩ := held.below listed
    have effectRoom := (Node.listing_sublist listed).length_le.trans room
    simp only [Option.map_some, Option.bind_eq_bind, Option.bind_some,
      find_held effectHeld effectRoom]
    cases inside : effect.find? reference.control with
    | none => rfl
    | some control =>
      rw [Node.find_listing] at inside
      obtain ⟨owner, controlHeld⟩ := effectHeld.below (List.mem_of_find?_eq_some inside)
      have own := ((holds_iff ..).mp controlHeld).1
      simp only [Option.map_some, Option.bind_some, own]
      rfl

section Meaning

variable {meant? : Reference → Option Value} {root : Node S P}

mutual
/-- Replacing expressions depends on nothing but what references mean. -/
theorem resolve_meant (same : ∀ reference, meant? reference = Expression.authored? root reference)
    (value : Value) : Expression.resolveBy meant? value = Expression.resolve root value := by
  match value with
  | .atom value => rfl
  | .list items => exact congrArg Value.list (resolve_items_meant same items)
  | .object members =>
    have replaced : Expression.replacementBy? meant? members =
        Expression.replacement? root members := by
      simp only [Expression.replacementBy?, Expression.replacement?, same]
    rw [Expression.resolveBy, replaced, resolve_members_meant same members]
    rfl

/-- So it does for items. -/
theorem resolve_items_meant
    (same : ∀ reference, meant? reference = Expression.authored? root reference)
    (items : List Value) :
    Expression.resolveItemsBy meant? items = Expression.resolveItems root items := by
  match items with
  | [] => rfl
  | item :: rest =>
    rw [Expression.resolveItemsBy, Expression.resolveItems, resolve_meant same item,
      resolve_items_meant same rest]

/-- So it does for members, of which those that define effects are passed over. -/
theorem resolve_members_meant
    (same : ∀ reference, meant? reference = Expression.authored? root reference)
    (members : List (String × Value)) :
    Expression.resolveMembersBy meant? members = Expression.resolveMembers root members := by
  match members with
  | [] => rfl
  | (name, value) :: rest =>
    rw [Expression.resolveMembersBy, Expression.resolveMembers, resolve_meant same value,
      resolve_members_meant same rest]
end

end Meaning

/-! ## Drawing and reporting -/

/-- The layers that others may follow are those directly under the root. -/
theorem layers_held {arena : Arena S P} {root : Node S P} (held : arena.Holds none root)
    (first : root.id = 0) : layers arena = Parenting.entries root.children := by
  obtain ⟨head, kind, effects, children⟩ := root
  obtain ⟨own, -, childrenHeld⟩ := held.parts
  rw [layers, ← first, children_held held, List.filterMap_map]
  refine List.filterMap_congr fun child member => ?_
  have own := ((holds_iff ..).mp (childrenHeld child member)).1
  simp only [Function.comp_apply, own, Option.bind_eq_bind, Option.bind_some]
  exact Option.map_eq_bind.symm

/-- The calls for a node that is held are those of the tree. -/
theorem calls_held {arena : Arena S P} {parent : Option Nat} {node : Node S P}
    (held : arena.Holds parent node) {bound : Nat} (room : node.listing.length ≤ bound) :
    callsFrom arena bound node.id = some (Render.Call.ofNode (layers arena) node) := by
  induction node generalizing parent bound with
  | mk head kind effects children effectsDrawn childrenDrawn =>
    obtain ⟨bound, rfl⟩ := Node.some_room room
    obtain ⟨own, effectsHeld, childrenHeld⟩ := held.parts
    have inFront := map_places effects fun effect member =>
      effectsDrawn effect member (effectsHeld effect member)
        (Node.part_room (List.mem_append_left _ member) room)
    have behind := map_places children fun child member =>
      childrenDrawn child member (childrenHeld child member)
        (Node.part_room (List.mem_append_right _ member) room)
    show callsFrom arena (bound + 1) head.id = _
    simp only [callsFrom, own, Placed.cell_hidden, Placed.cell_kind, Placed.cell_head,
      Placed.cell_effects, Placed.cell_children, inFront, behind, Render.Call.ofNode,
      Render.Call.ofNodes_flatMap]
    cases hidden : head.hidden with
    | true => rfl
    | false =>
      cases kind with
      | layer content =>
        cases active : content.active <;> simp [Render.Call.layer, active, List.flatMap]
      | _ => simp [List.flatMap]

/-- The report on several nodes is the reports on each of them, one behind the other. -/
theorem nodesLines_flatMap (depth : Nat) (nodes : List (Node S P)) :
    Report.nodesLines depth nodes = nodes.flatMap (Report.nodeLines depth) := by
  induction nodes with
  | nil => rfl
  | cons first rest inductionHypothesis =>
    rw [Report.nodesLines, inductionHypothesis, List.flatMap_cons]

/-- The lines for a node that is held are those of the tree. -/
theorem lines_held {arena : Arena S P} {parent : Option Nat} {node : Node S P}
    (held : arena.Holds parent node) (depth : Nat) {bound : Nat}
    (room : node.listing.length ≤ bound) :
    linesFrom arena bound depth node.id = some (Report.nodeLines depth node) := by
  induction node generalizing parent depth bound with
  | mk head kind effects children effectsShown childrenShown =>
    obtain ⟨bound, rfl⟩ := Node.some_room room
    obtain ⟨own, effectsHeld, childrenHeld⟩ := held.parts
    have inFront := map_places effects fun effect member =>
      effectsShown effect member (effectsHeld effect member) (depth + 1)
        (Node.part_room (List.mem_append_left _ member) room)
    have behind := map_places children fun child member =>
      childrenShown child member (childrenHeld child member) (depth + 1)
        (Node.part_room (List.mem_append_right _ member) room)
    show linesFrom arena (bound + 1) depth head.id = _
    simp [linesFrom, own, inFront, behind, Report.nodeLines, nodesLines_flatMap, List.flatMap]

end Arena

end VectorMotion.Scene
