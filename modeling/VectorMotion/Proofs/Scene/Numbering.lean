import Mathlib.Data.List.Perm.Basic
import VectorMotion.Proofs.Scene.Building

/-!
# Numbers of nodes

Building gives every node a number of its own and leaves none out. Each function of the builder
takes the numbers from the one it is given up to the one it returns, so it is enough to follow what
is taken from one call to the next. Putting children in another order changes where a number stands
and not which numbers there are.

A node takes its number before anything below it does. Layers are filled after all of them have been
made, and then too every number that is still to be given is greater.
-/

namespace VectorMotion.Scene

open Json

variable {S P : Type}

/-- Exactly the numbers from one on and in front of another, each once, in any order. -/
structure Taken (next : Nat) (numbers : List Nat) (after : Nat) : Prop where
  forward : next ≤ after
  all : numbers.Perm (List.range' next (after - next))

namespace Taken

/-- If nothing is numbered, no number has been taken. -/
theorem none (next : Nat) : Taken next [] next := ⟨Nat.le_refl next, by simp⟩

/-- The numbers that have been taken are those from the first up to the next free one. -/
theorem mem {next after : Nat} {numbers : List Nat} (taken : Taken next numbers after)
    (number : Nat) : number ∈ numbers ↔ next ≤ number ∧ number < after := by
  have forward := taken.forward
  rw [taken.all.mem_iff, List.mem_range'_1]
  omega

/-- Which numbers have been taken does not depend on their order. -/
theorem perm {next after : Nat} {numbers others : List Nat} (taken : Taken next numbers after)
    (same : others.Perm numbers) : Taken next others after :=
  ⟨taken.forward, same.trans taken.all⟩

/-- What is taken first and what is taken behind it. -/
theorem append {next middle after : Nat} {first second : List Nat}
    (before : Taken next first middle) (behind : Taken middle second after) :
    Taken next (first ++ second) after := by
  have forward := before.forward
  have onward := behind.forward
  refine ⟨Nat.le_trans forward onward, ?_⟩
  have joined : List.range' next (middle - next) ++ List.range' middle (after - middle) =
      List.range' next (after - next) := by
    have start : next + (middle - next) = middle := by omega
    have length : middle - next + (after - middle) = after - next := by omega
    rw [← length, ← List.range'_append_1, start]
  exact joined ▸ before.all.append behind.all

/-- A number, and then those behind it. -/
theorem first {next after : Nat} {rest : List Nat} (behind : Taken (next + 1) rest after) :
    Taken next (next :: rest) after := by
  have one : Taken next [next] (next + 1) := ⟨by omega, by simp⟩
  exact one.append behind

end Taken

namespace Node

/-- The numbers of a node and of all that is below it. -/
def numbers (node : Node S P) : List Nat := node.listing.map id

/-- The effects and the children of a node. -/
def parts (node : Node S P) : List (Node S P) := node.effects ++ node.children

/-- Induction on a node: its parts may be assumed, whether they are effects or children. -/
@[elab_as_elim]
theorem parts_induction {motive : Node S P → Prop}
    (step : ∀ node, (∀ part ∈ node.parts, motive part) → motive node) (node : Node S P) :
    motive node := by
  induction node with
  | mk head kind effects children effectsHold childrenHold =>
    refine step _ fun part member => ?_
    exact (List.mem_append.mp member).elim (effectsHold part) (childrenHold part)

/-- The node itself, and then all its parts with what is below them. -/
theorem listing_parts (node : Node S P) :
    node.listing = node :: node.parts.flatMap listing := by
  obtain ⟨head, kind, effects, children⟩ := node
  simp [listing, listingAll_flatMap, parts, Node.effects, Node.children]

/-- The numbers of a node are its own and then those of its parts, effects first. -/
theorem numbers_parts (node : Node S P) :
    node.numbers = node.id :: node.parts.flatMap numbers := by
  simp only [numbers, listing_parts node, List.map_cons, List.map_flatMap]
  rfl

/-- The number of a node is among the numbers of the node. -/
theorem id_mem_numbers (node : Node S P) : node.id ∈ node.numbers := by
  rw [numbers_parts]
  exact List.mem_cons_self

/-- A node whose number is smaller than those of its parts, and so with all that is below it. -/
def Rising (node : Node S P) : Prop :=
  ∀ passed ∈ node.listing, ∀ part ∈ passed.parts, passed.id < part.id

/-- The numbers rise in a node if they do in each of its parts, and each part has a greater number.
-/
theorem Rising.of_parts (node : Node S P)
    (each : ∀ part ∈ node.parts, node.id < part.id ∧ part.Rising) : node.Rising := by
  intro passed below
  rw [listing_parts] at below
  rcases List.mem_cons.mp below with rfl | below
  · exact fun part member => (each part member).1
  · obtain ⟨part, member, below⟩ := List.mem_flatMap.mp below
    exact (each part member).2 passed below

/-- A part of a node has a greater number than the node, and its own numbers rise too. -/
theorem Rising.part {node part : Node S P} (rising : node.Rising) (member : part ∈ node.parts) :
    node.id < part.id ∧ part.Rising := by
  have listed := node.listing_parts
  refine ⟨rising node (by simp [listed]) part member, fun passed below => rising passed ?_⟩
  rw [listed]
  exact List.mem_cons_of_mem _ (List.mem_flatMap.mpr ⟨part, member, below⟩)

end Node

/-- Nodes that have taken the numbers from one on and in front of another. -/
structure Numbered (next : Nat) (nodes : List (Node S P)) (after : Nat) : Prop where
  taken : Taken next (nodes.flatMap Node.numbers) after
  rising : ∀ node ∈ nodes, node.Rising

namespace Numbered

/-- A list of no nodes leaves the next free number as it was. -/
theorem none (next : Nat) : Numbered next ([] : List (Node S P)) next :=
  ⟨Taken.none next, by simp⟩

/-- The nodes that have been numbered may be put in any other order. -/
theorem perm {next after : Nat} {nodes others : List (Node S P)}
    (numbered : Numbered next nodes after) (same : others.Perm nodes) :
    Numbered next others after :=
  ⟨numbered.taken.perm (same.flatMap_right _),
    fun node member => numbered.rising node (same.mem_iff.mp member)⟩

/-- Nodes that are numbered one list after the other are numbered as one list. -/
theorem append {next middle after : Nat} {first second : List (Node S P)}
    (before : Numbered next first middle) (behind : Numbered middle second after) :
    Numbered next (first ++ second) after := by
  refine ⟨?_, fun node member => ?_⟩
  · rw [List.flatMap_append]
    exact before.taken.append behind.taken
  · exact (List.mem_append.mp member).elim (before.rising node) (behind.rising node)

/-- All numbers of one of the nodes are among those that have been taken. -/
theorem within {next after : Nat} {nodes : List (Node S P)}
    (numbered : Numbered next nodes after) {node : Node S P} (member : node ∈ nodes) {id : Nat}
    (inside : id ∈ node.numbers) : next ≤ id ∧ id < after :=
  (numbered.taken.mem id).mp (List.mem_flatMap.mpr ⟨node, member, inside⟩)

/-- So is the number of the node itself. -/
theorem bounds {next after : Nat} {nodes : List (Node S P)}
    (numbered : Numbered next nodes after) {node : Node S P} (member : node ∈ nodes) :
    next ≤ node.id ∧ node.id < after := numbered.within member node.id_mem_numbers

/-- A node that has taken its number before its parts have. -/
theorem node {next after : Nat} (node : Node S P) (own : node.id = next)
    (parts : Numbered (next + 1) node.parts after) : Numbered next [node] after := by
  refine ⟨?_, fun other member => ?_⟩
  · simpa [Node.numbers_parts, own] using parts.taken.first
  · rw [List.mem_singleton.mp member]
    exact .of_parts node fun part member =>
      ⟨own ▸ (parts.bounds member).1, parts.rising part member⟩

end Numbered

namespace Build

/-- Putting children in the order of drawing only moves them. -/
theorem arranged_perm (children : List (Node S P)) : (arranged children).Perm children :=
  (List.filter_append_perm _ _).trans (List.reverse_perm children)

/-- Moving matte sources only moves layers. -/
theorem mattes_first_perm (layers : List (Node S P)) : (mattesFirst layers).Perm layers := by
  induction layers using mattesFirst.induct with
  | case1 layer source rest isSource inductionHypothesis =>
    rw [mattesFirst, if_pos isSource]
    exact (List.Perm.swap ..).trans ((inductionHypothesis.cons source).cons layer)
  | case2 layer other rest noSource inductionHypothesis =>
    rw [mattesFirst, if_neg noSource]
    exact inductionHypothesis.cons layer
  | case3 layers short => rw [mattesFirst]; exact short

variable [Scalar S]

/-- Effects take one number after the other, also those in groups at any depth. -/
theorem effects_numbered :
    (∀ authored next (node : Node S P) after,
      effect authored next = some (node, after) → Numbered next [node] after) ∧
    (∀ authored next, let made := (effects authored next : List (Node S P) × Nat)
      Numbered next made.1 made.2) := by
  apply Build.effect.mutual_induct (S := S) (P := P)
  case case1 =>
    intro code name matchName parts value next authored unknown node after built
    simp [effect, unknown, authored] at built
  case case2 =>
    intro code name matchName parts value next authored isGroup children last same partsNumbered
      node after built
    simp only [same] at partsNumbered
    simp only [effect, isGroup, same, authored, Option.some.injEq, Prod.mk.injEq] at built
    obtain ⟨rfl, rfl⟩ := built
    exact .node _ rfl partsNumbered
  case case3 =>
    intro code name matchName parts value next authored kind noGroup known node after built
    simp only [effect, known, authored, Option.some.injEq, Prod.mk.injEq] at built
    obtain ⟨rfl, rfl⟩ := built
    exact .node _ rfl (.none _)
  case case4 => exact fun next => .none next
  case case5 =>
    intro item rest next first after built others last same firstNumbered restNumbered
    simp only [same] at restNumbered
    simp only [effects, built, same]
    exact (firstNumbered _ _ built).append restNumbered
  case case6 =>
    intro item rest next unknown _ restNumbered
    simpa only [effects, unknown] using restNumbered

/-- A layer takes its number before its effects do, and has no contents yet. -/
theorem layer_head_numbered (workshop : Workshop S) (fragment : Value) (next after : Nat)
    (node : Node S P) (built : layerHead workshop fragment next = some (node, after)) :
    Numbered next [node] after ∧ node.children = [] := by
  simp only [layerHead, Option.bind_eq_bind, Option.bind_eq_some_iff, Option.pure_def,
    Option.some.injEq, Prod.mk.injEq] at built
  obtain ⟨label, -, authored, -, kind, -, rfl, rfl⟩ := built
  refine ⟨.node _ rfl ?_, rfl⟩
  simpa [Node.parts, Node.effects, Node.children] using effects_numbered.2 _ (next + 1)

/-- The layers of the first round take one number after the other. -/
theorem layer_heads_numbered (workshop : Workshop S) (layers : List Value) (next : Nat) :
    let made := (layerHeads workshop layers next : List (Node S P × Value) × Nat)
    Numbered next (made.1.map Prod.fst) made.2 ∧ ∀ entry ∈ made.1, entry.1.children = [] := by
  induction layers generalizing next with
  | nil => exact ⟨.none next, by simp [layerHeads]⟩
  | cons fragment rest inductionHypothesis =>
    cases built : (layerHead workshop fragment next : Option (Node S P × Nat)) with
    | none => simpa only [layerHeads, built] using inductionHypothesis next
    | some made =>
      obtain ⟨layer, after⟩ := made
      obtain ⟨numbered, empty⟩ := layer_head_numbered workshop fragment next after layer built
      obtain ⟨restNumbered, restEmpty⟩ := inductionHypothesis after
      simp only [layerHeads, built, List.map_cons, List.mem_cons, forall_eq_or_imp]
      exact ⟨numbered.append restNumbered, empty, restEmpty⟩

variable [Scalar P] [Widen S P]

/-- The head of a shape has the number that it is given. -/
theorem head_number (settings : Trim.Settings) (fragment : Value) (id : Nat) (head : Head)
    (kind : Kind S P) (readable : shapeHead settings fragment id = some (head, kind)) :
    head.id = id := by
  simp only [shapeHead, Option.bind_eq_bind, Option.bind_eq_some_iff, Option.pure_def,
    Option.some.injEq, Prod.mk.injEq] at readable
  obtain ⟨_, -, tag, -, label, -, kind, known, rfl, rfl⟩ := readable
  rfl

/-- Shapes take one number after the other, also those in groups at any depth. -/
theorem contents_numbered (settings : Trim.Settings) :
    (∀ fragment next (node : Node S P) after,
      shape settings fragment next = some (node, after) → Numbered next [node] after) ∧
    (∀ members next, let made := (groupItems settings members next : List (Node S P) × Nat)
      Numbered next made.1 made.2) ∧
    (∀ items next, let made := (shapes settings items next : List (Node S P) × Nat)
      Numbered next made.1 made.2) := by
  apply Build.shape.mutual_induct (S := S) (P := P) settings
  case case1 =>
    intro members next unreadable node after built
    simp [shape, unreadable] at built
  case case2 =>
    intro members next head group readable children last items childrenNumbered node after built
    simp only [items] at childrenNumbered
    simp only [shape, readable, items, Option.some.injEq, Prod.mk.injEq] at built
    obtain ⟨rfl, rfl⟩ := built
    exact .node _ (head_number settings _ next head _ readable)
      (childrenNumbered.perm (arranged_perm children))
  case case3 =>
    intro members next head kind noGroup readable node after built
    simp only [shape, readable, Option.some.injEq, Prod.mk.injEq] at built
    obtain ⟨rfl, rfl⟩ := built
    exact .node _ (head_number settings _ next head kind readable) (.none _)
  case case4 =>
    intro fragment next noObject node after built
    cases fragment with
    | object members => exact absurd rfl (noObject members)
    | _ => simp [shape] at built
  case case5 => exact fun next => .none next
  case case6 =>
    intro item rest next first after built others last same firstNumbered restNumbered
    simp only [same] at restNumbered
    simp only [shapes, built, same]
    exact (firstNumbered _ _ built).append restNumbered
  case case7 =>
    intro item rest next unreadable _ restNumbered
    simpa only [shapes, unreadable] using restNumbered
  case case8 => exact fun next => .none next
  case case9 =>
    intro name items rest next isItems itemsNumbered
    simpa only [groupItems, isItems, ↓reduceIte] using itemsNumbered
  case case10 =>
    intro name items rest next noItems restNumbered
    simpa only [groupItems, noItems, Bool.false_eq_true, ↓reduceIte] using restNumbered
  case case11 =>
    intro first rest next noList restNumbered
    obtain ⟨name, value⟩ := first
    cases value with
    | list items => exact absurd rfl (noList name items)
    | _ => simpa only [groupItems] using restNumbered

/-- The contents of a layer take numbers behind all that have been taken, and so behind that of the
layer. -/
theorem fill_layer_numbered (workshop : Workshop S) (layer : Node S P) (fragment : Value)
    (next : Nat) (empty : layer.children = []) (rising : layer.Rising) (before : layer.id < next) :
    let filled := fillLayer workshop layer fragment next
    ∃ contents, Taken next contents filled.2 ∧
      filled.1.numbers.Perm (layer.numbers ++ contents) ∧ filled.1.Rising := by
  obtain ⟨head, kind, effects, children⟩ := layer
  obtain rfl : children = [] := empty
  unfold fillLayer
  split
  · exact ⟨[], .none next, by simp, rising⟩
  · rename_i authored _
    have contents := (contents_numbered (S := S) (P := P) workshop.settings).2.2 authored.shapes next
    have numbered := contents.perm (arranged_perm _)
    refine ⟨_, numbered.taken, ?_, ?_⟩
    · simp [Node.numbers_parts, Node.parts, Node.effects, Node.children, Node.withChildren,
        Node.mapKind, Node.id, Node.head]
    · refine .of_parts _ fun part member => ?_
      rcases List.mem_append.mp member with effect | content
      · exact rising.part (List.mem_append_left _ effect)
      · exact ⟨Nat.lt_of_lt_of_le before (numbered.bounds content).1, numbered.rising part content⟩

/-- A layer among others that is filled in takes the numbers behind those of all of them. -/
theorem filled_numbered (workshop : Workshop S) (start : Nat) (before after : List (Node S P))
    (layer : Node S P) (fragment : Value) (next : Nat)
    (numbered : Numbered start (before ++ layer :: after) next) (empty : layer.children = []) :
    let made := fillLayer workshop layer fragment next
    Numbered start (before ++ made.1 :: after) made.2 := by
  have member : layer ∈ before ++ layer :: after := by simp
  obtain ⟨contents, taken, same, rising⟩ := fill_layer_numbered workshop layer fragment next empty
    (numbered.rising layer member) (numbered.bounds member).2
  refine ⟨(numbered.taken.append taken).perm ?_, fun node member => ?_⟩
  · simp only [List.flatMap_append, List.flatMap_cons, List.append_assoc]
    refine List.Perm.append_left _ ((same.append_right _).trans ?_)
    rw [List.append_assoc]
    exact List.Perm.append_left _ List.perm_append_comm
  · simp only [List.mem_append, List.mem_cons] at member
    rcases member with early | rfl | late
    · exact numbered.rising node (List.mem_append_left _ early)
    · exact rising
    · exact numbered.rising node (List.mem_append_right _ (List.mem_cons_of_mem _ late))

/-- The layers of the second round have taken, with their contents, all numbers in front of the one
that comes next. -/
theorem fill_layers_numbered (workshop : Workshop S) (start : Nat)
    (heads : List (Node S P × Value)) (filled : List (Node S P)) (next : Nat)
    (numbered : Numbered start (filled ++ heads.map Prod.fst) next)
    (empty : ∀ entry ∈ heads, entry.1.children = []) :
    let made := fillLayers workshop filled heads next
    Numbered start made.1 made.2 := by
  induction heads generalizing filled next with
  | nil => simpa only [fillLayers, List.map_nil, List.append_nil] using numbered
  | cons entry rest inductionHypothesis =>
    obtain ⟨layer, fragment⟩ := entry
    refine inductionHypothesis _ _ ?_ fun entry member => empty entry (List.mem_cons_of_mem _ member)
    rw [List.append_assoc]
    exact filled_numbered workshop start filled (rest.map Prod.fst) layer _ next numbered
      (empty _ List.mem_cons_self)

/-- The nodes of a document have the numbers from zero on, the root the first of them, and each node
a smaller one than all that is below it. -/
theorem document_numbered (workshop : Workshop S) (layers : List Value) :
    let made := (document workshop layers : Node S P × Nat)
    Numbered 0 [made.1] made.2 := by
  obtain ⟨numbered, empty⟩ := layer_heads_numbered (P := P) workshop layers 1
  have filled := fill_layers_numbered workshop 1 _ [] _ numbered empty
  exact .node _ rfl (filled.perm ((mattes_first_perm _).trans (List.reverse_perm _)))

end Build

end VectorMotion.Scene
