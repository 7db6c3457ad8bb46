import VectorMotion.Scene.Tree

/-!
# Descending into a tree

The walks of a tree are defined together with their companions on lists of nodes. Here each
companion is shown to be the walk applied to every node of the list, and induction on a node is
stated once with both of its lists as hypotheses, so that no later proof speaks about lists of
nodes on their own. A way records the containers between a node and one below it.
-/

namespace VectorMotion.Scene.Node

variable {S P : Type}

/-- Induction on a node: its effects and its children may be assumed. -/
@[induction_eliminator]
theorem descent {motive : Node S P → Prop}
    (mk : ∀ head kind effects children, (∀ effect ∈ effects, motive effect) →
      (∀ child ∈ children, motive child) → motive (.mk head kind effects children))
    (node : Node S P) : motive node := by
  refine @Node.rec S P motive (fun nodes => ∀ node ∈ nodes, motive node) ?_ ?_ ?_ node
  · intro head kind effects children effectsHold childrenHold
    exact mk head kind effects children effectsHold childrenHold
  · intro node member
    exact absurd member (by simp)
  · intro first rest firstHolds restHold node member
    rcases List.mem_cons.mp member with rfl | member
    · exact firstHolds
    · exact restHold node member

/-- The nodes between a node and one below it, outermost first. Effects lie below a layer as
children do. -/
inductive Way : Node S P → List (Node S P) → Node S P → Prop where
  | here (node : Node S P) : Way node [] node
  | child (top next node : Node S P) (path : List (Node S P))
      (member : next ∈ top.children) (rest : Way next path node) : Way top (top :: path) node
  | effect (top next node : Node S P) (path : List (Node S P))
      (member : next ∈ top.effects) (rest : Way next path node) : Way top (top :: path) node

/-- Listing some nodes lists them one after the other. -/
theorem listingAll_flatMap (nodes : List (Node S P)) :
    listingAll nodes = nodes.flatMap listing := by
  induction nodes with
  | nil => rfl
  | cons first rest inductionHypothesis =>
    simp only [listingAll, inductionHypothesis, List.flatMap_cons]

/-- The node with a number is changed in each of some nodes. -/
theorem modifyAll_map (id : Nat) (change : Node S P → Node S P) (nodes : List (Node S P)) :
    modifyAll id change nodes = nodes.map (modify id change) := by
  induction nodes with
  | nil => rfl
  | cons first rest inductionHypothesis =>
    simp only [modifyAll, inductionHypothesis, List.map_cons]

/-- A node is listed below another exactly when it is the other one, or is listed below one of its
effects or children. -/
theorem mem_listing (node : Node S P) (head : Head) (kind : Kind S P)
    (effects children : List (Node S P)) :
    node ∈ (mk head kind effects children).listing ↔
      node = mk head kind effects children ∨ (∃ effect ∈ effects, node ∈ effect.listing) ∨
        ∃ child ∈ children, node ∈ child.listing := by
  simp only [listing, listingAll_flatMap, List.mem_cons, List.mem_append, List.mem_flatMap]

/-- What holds of all nodes of a tree holds of its top, and of what is below its effects and
children. -/
theorem forall_listing {about : Node S P → Prop} {head : Head} {kind : Kind S P}
    {effects children : List (Node S P)} :
    (∀ node ∈ (mk head kind effects children).listing, about node) ↔
      about (mk head kind effects children) ∧
        (∀ effect ∈ effects, ∀ node ∈ effect.listing, about node) ∧
        ∀ child ∈ children, ∀ node ∈ child.listing, about node := by
  simp only [mem_listing]
  constructor
  · intro all
    exact ⟨all _ (.inl rfl),
      fun effect member node below => all node (.inr (.inl ⟨effect, member, below⟩)),
      fun child member node below => all node (.inr (.inr ⟨child, member, below⟩))⟩
  · rintro ⟨top, inEffects, inChildren⟩ node
      (rfl | ⟨effect, member, below⟩ | ⟨child, member, below⟩)
    · exact top
    · exact inEffects effect member node below
    · exact inChildren child member node below

/-- The end of a way is listed below its top. -/
theorem Way.listed {top node : Node S P} {path : List (Node S P)} (way : Way top path node) :
    node ∈ top.listing := by
  induction way with
  | here node =>
    obtain ⟨head, kind, effects, children⟩ := node
    exact (mem_listing _ _ _ _ _).mpr (.inl rfl)
  | child top next node path member rest inductionHypothesis =>
    obtain ⟨head, kind, effects, children⟩ := top
    exact (mem_listing _ _ _ _ _).mpr (.inr (.inr ⟨next, member, inductionHypothesis⟩))
  | effect top next node path member rest inductionHypothesis =>
    obtain ⟨head, kind, effects, children⟩ := top
    exact (mem_listing _ _ _ _ _).mpr (.inr (.inl ⟨next, member, inductionHypothesis⟩))

/-- Looking up a name among nodes goes through their listings one behind the other, if it does so
for each of them. -/
theorem find_among (name : String) (nodes : List (Node S P))
    (each : ∀ node ∈ nodes,
      node.find? name = node.listing.find? fun listed => listed.head.name == name) :
    findAmong? name nodes =
      (nodes.flatMap listing).find? fun listed => listed.head.name == name := by
  induction nodes with
  | nil => rfl
  | cons first rest inductionHypothesis =>
    have restFound := inductionHypothesis fun node member =>
      each node (List.mem_cons_of_mem _ member)
    rw [findAmong?, each first List.mem_cons_self, restFound, List.flatMap_cons, List.find?_append]
    cases (first.listing.find? fun listed => listed.head.name == name) <;> rfl

/-- The first node with a name is the first one that is listed with it. -/
theorem find_listing (name : String) (node : Node S P) :
    node.find? name = node.listing.find? fun listed => listed.head.name == name := by
  induction node with
  | mk head kind effects children effectsFound childrenFound =>
    have own : (mk head kind effects children).head = head := rfl
    rw [find?, find_among name effects effectsFound, find_among name children childrenFound,
      listing, listingAll_flatMap, listingAll_flatMap, List.find?_cons, List.find?_append, own]
    cases head.name == name with
    | true => rfl
    | false =>
      cases ((effects.flatMap listing).find? fun listed => listed.head.name == name) <;> rfl

section Update

variable [Scalar S] [Scalar P] [Widen S P] [Measure P]

/-- Nodes are brought to a time one by one. -/
theorem updateAll_map (time : S) (around : Option (Trim.Window S)) (nodes : List (Node S P)) :
    updateAll time around nodes = nodes.map (update time around) := by
  induction nodes with
  | nil => rfl
  | cons first rest inductionHypothesis =>
    simp only [updateAll, inductionHypothesis, List.map_cons]

/-- Hidden nodes are left as they are, with all that is below them. -/
theorem update_hidden (time : S) (around : Option (Trim.Window S)) (head : Head)
    (kind : Kind S P) (effects children : List (Node S P)) (hidden : head.hidden = true) :
    (mk head kind effects children).update time around = mk head kind effects children := by
  simp only [update, hidden, ↓reduceIte]

/-- A container that is shown hands its children its own time and the trim that the windows among
them give. -/
theorem update_container (time : S) (around : Option (Trim.Window S)) (head : Head)
    (kind : Kind S P) (effects children : List (Node S P)) (shown : head.hidden = false)
    (container : kind.isContainer = true) :
    (mk head kind effects children).update time around =
      let windows := windowsAt (kind.childTime time) children
      let trim := meetAll (kind.trimInside around) windows
      mk head (kind.updateContainer time trim !windows.isEmpty)
        (effects.map (update (kind.childTime time) none))
        (children.map (update (kind.childTime time) trim)) := by
  simp only [update, shown, container, updateAll_map, Bool.false_eq_true, ↓reduceIte]

/-- Any other node that is shown is brought to the time of its container, under the trim around
it. -/
theorem update_leaf (time : S) (around : Option (Trim.Window S)) (head : Head)
    (kind : Kind S P) (effects children : List (Node S P)) (shown : head.hidden = false)
    (plain : kind.isContainer = false) :
    (mk head kind effects children).update time around =
      mk head (kind.updateLeaf time around) effects children := by
  simp only [update, shown, plain, Bool.false_eq_true, ↓reduceIte]

/-- Bringing a node to a time leaves its head as it is. -/
theorem update_head (node : Node S P) (time : S) (around : Option (Trim.Window S)) :
    (node.update time around).head = node.head := by
  obtain ⟨head, kind, effects, children⟩ := node
  rw [update]
  split
  · rfl
  · split <;> rfl

/-- A node has the number that it had. -/
theorem update_id (node : Node S P) (time : S) (around : Option (Trim.Window S)) :
    (node.update time around).id = node.id := congrArg Head.id (update_head node time around)

end Update

end VectorMotion.Scene.Node
