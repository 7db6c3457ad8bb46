import VectorMotion.Proofs.Arena.Building

/-!
# Bringing a scene to a time cell by cell

Bringing a node to a time changes cells at the places of that node and of what is below it, and
leaves all others as they are. Since a place belongs to one node only, the children of a container
can be brought to a time one after the other: what has been reached by one of them stays while the
next is on its way. The list of children that is taken out of a cell meanwhile is not missed, since
no child asks for it, and is in its old place at the end.

So the arena follows the tree. It takes no more nested steps than there are nodes below the one that
is brought to a time, and comes upon no place without a cell.
-/

namespace VectorMotion.Scene.Arena

variable {S P : Type}

/-- An arena in which cells have changed at some places only. -/
structure Changed (numbers : List Nat) (before after : Arena S P) : Prop where
  size : after.length = before.length
  apart : ∀ id, id ∉ numbers → after[id]? = before[id]?

namespace Changed

variable {numbers : List Nat} {before after : Arena S P}

/-- Nothing has changed. -/
theorem none (numbers : List Nat) (arena : Arena S P) : Changed numbers arena arena :=
  ⟨rfl, fun _ _ => rfl⟩

/-- One cell has changed. -/
theorem one {id : Nat} (among : id ∈ numbers) (change : Cell S P → Cell S P)
    (arena : Arena S P) : Changed numbers arena (arena.modify id change) :=
  ⟨List.length_modify .., fun _ outside => List.getElem?_modify_ne _ _ fun same =>
    outside (same ▸ among)⟩

/-- Changes at some places are changes at some of more places. -/
theorem among {more : List Nat} (changed : Changed numbers before after)
    (within : numbers ⊆ more) : Changed more before after :=
  ⟨changed.size, fun id outside => changed.apart id fun inside => outside (within inside)⟩

/-- Changes follow each other. -/
theorem append {last : Arena S P} {more : List Nat} (first : Changed numbers before after)
    (second : Changed more after last) : Changed (numbers ++ more) before last := by
  refine ⟨second.size.trans first.size, fun id outside => ?_⟩
  rw [List.mem_append, not_or] at outside
  rw [second.apart id outside.2, first.apart id outside.1]

/-- Changes at the same places follow each other. -/
theorem trans {last : Arena S P} (first : Changed numbers before after)
    (second : Changed numbers after last) : Changed numbers before last :=
  (first.append second).among (by simp)

/-- A node stays as it is held if none of the places is one of its own. -/
theorem held {parent : Option Nat} {node : Node S P} (changed : Changed numbers before after)
    (held : before.Holds parent node) (outside : ∀ id ∈ node.numbers, id ∉ numbers) :
    after.Holds parent node :=
  held.kept fun id own => changed.apart id (outside id own)

end Changed

/-- Nodes are changed one after the other, each at its own places. What is held of them at the start
may be something else than what they were taken for. -/
theorem nodes_changed (step : Arena S P → Nat → Option (Arena S P))
    {start change : Node S P → Node S P} {parent : Option Nat} (nodes : List (Node S P))
    (each : ∀ node ∈ nodes, ∀ arena : Arena S P, arena.Holds parent (start node) →
      ∃ later, step arena node.id = some later ∧ Changed node.numbers arena later ∧
        later.Holds parent (change node))
    (startNumbers : ∀ node ∈ nodes, (start node).numbers = node.numbers)
    (changeNumbers : ∀ node ∈ nodes, (change node).numbers = node.numbers)
    (distinct : (nodes.flatMap Node.numbers).Nodup) (arena : Arena S P)
    (held : ∀ node ∈ nodes, arena.Holds parent (start node)) :
    ∃ later, (nodes.map Node.id).foldlM step arena = some later ∧
      Changed (nodes.flatMap Node.numbers) arena later ∧
      ∀ node ∈ nodes, later.Holds parent (change node) := by
  induction nodes generalizing arena with
  | nil => exact ⟨arena, rfl, .none _ _, by simp⟩
  | cons first rest inductionHypothesis =>
    obtain ⟨firstEach, restEach⟩ := List.forall_mem_cons.mp each
    obtain ⟨firstStart, restStart⟩ := List.forall_mem_cons.mp startNumbers
    obtain ⟨firstSame, restSame⟩ := List.forall_mem_cons.mp changeNumbers
    obtain ⟨firstHeld, restHeld⟩ := List.forall_mem_cons.mp held
    rw [List.flatMap_cons, List.nodup_append] at distinct
    obtain ⟨-, restDistinct, disjoint⟩ := distinct
    obtain ⟨between, made, firstChanged, firstDone⟩ := firstEach arena firstHeld
    -- The rest is held as before: what has changed so far are places of the first node only.
    have restStill (node : Node S P) (member : node ∈ rest) :
        between.Holds parent (start node) := by
      refine firstChanged.held (restHeld node member) fun id own among => ?_
      rw [restStart node member] at own
      exact disjoint id among id (List.mem_flatMap.mpr ⟨node, member, own⟩) rfl
    obtain ⟨later, restMade, restChanged, restDone⟩ :=
      inductionHypothesis restEach restStart restSame restDistinct between restStill
    refine ⟨later, by simp [made, restMade], ?_, List.forall_mem_cons.mpr ⟨?_, restDone⟩⟩
    · rw [List.flatMap_cons]
      exact firstChanged.append restChanged
    · refine restChanged.held firstDone fun id own among => ?_
      rw [firstSame] at own
      exact disjoint id own id among rfl

/-- The kind of a node that is held can be changed in its cell. -/
theorem kind_changed {arena : Arena S P} {parent : Option Nat} {head : Head} {kind : Kind S P}
    {effects children : List (Node S P)}
    (held : arena.Holds parent (.mk head kind effects children))
    (distinct : (Node.mk head kind effects children).numbers.Nodup)
    (change : Kind S P → Kind S P) :
    Holds (arena.modify head.id (Cell.mapKind change)) parent
      (.mk head (change kind) effects children) := by
  obtain ⟨own, partsHeld⟩ := (holds_iff ..).mp held
  rw [Node.numbers_parts] at distinct
  refine (holds_iff ..).mpr ⟨?_, fun part member => ?_⟩
  · show (arena.modify head.id _)[head.id]? = _
    rw [List.getElem?_modify_eq, show arena[head.id]? = _ from own]
    rfl
  · refine (partsHeld part member).kept fun id inside => List.getElem?_modify_ne _ _ ?_
    rintro rfl
    exact (List.nodup_cons.mp distinct).1 (List.mem_flatMap.mpr ⟨part, member, inside⟩)

section Parts

variable {head : Head} {kind : Kind S P} {effects children : List (Node S P)}

/-- The numbers of a node, of its effects and of its children are apart from each other. -/
theorem parts_apart (distinct : (Node.mk head kind effects children).numbers.Nodup) :
    (head.id ∉ effects.flatMap Node.numbers ∧ head.id ∉ children.flatMap Node.numbers) ∧
      (effects.flatMap Node.numbers).Nodup ∧ (children.flatMap Node.numbers).Nodup ∧
      ∀ id ∈ effects.flatMap Node.numbers, id ∉ children.flatMap Node.numbers := by
  rw [Node.numbers_parts, List.nodup_cons, Node.parts, List.flatMap_append, List.nodup_append,
    List.mem_append, not_or] at distinct
  obtain ⟨outside, effectsDistinct, childrenDistinct, disjoint⟩ := distinct
  exact ⟨outside, effectsDistinct, childrenDistinct,
    fun id effect child => disjoint id effect id child rfl⟩

/-- The numbers of parts are among those of the whole. -/
theorem parts_within :
    effects.flatMap Node.numbers ⊆ (Node.mk head kind effects children).numbers ∧
      children.flatMap Node.numbers ⊆ (Node.mk head kind effects children).numbers := by
  rw [Node.numbers_parts, Node.parts, List.flatMap_append]
  exact ⟨fun id inside => List.mem_cons_of_mem _ (List.mem_append_left _ inside),
    fun id inside => List.mem_cons_of_mem _ (List.mem_append_right _ inside)⟩

/-- The numbers do not depend on the kind, and on the parts only through theirs. -/
theorem numbers_replaced (other : Kind S P) {newEffects newChildren : List (Node S P)}
    (effectsSame : newEffects.flatMap Node.numbers = effects.flatMap Node.numbers)
    (childrenSame : newChildren.flatMap Node.numbers = children.flatMap Node.numbers) :
    (Node.mk head other newEffects newChildren).numbers =
      (Node.mk head kind effects children).numbers := by
  rw [Node.numbers_parts, Node.numbers_parts, Node.parts, Node.parts, List.flatMap_append,
    List.flatMap_append]
  exact congrArg _ (congrArg₂ _ effectsSame childrenSame)

/-- A container is held with other effects and children if they are held and have the numbers of
those before. -/
theorem parts_replaced {arena : Arena S P} {parent : Option Nat}
    (own : arena[head.id]? = some (Placed.cell ⟨parent, .mk head kind effects children⟩))
    (onEffect onChild : Node S P → Node S P)
    (effectsHeld : ∀ effect ∈ effects, arena.Holds (some head.id) (onEffect effect))
    (childrenHeld : ∀ child ∈ children, arena.Holds (some head.id) (onChild child))
    (effectsSame : ∀ effect ∈ effects, (onEffect effect).id = effect.id)
    (childrenSame : ∀ child ∈ children, (onChild child).id = child.id) :
    arena.Holds parent (.mk head kind (effects.map onEffect) (children.map onChild)) := by
  refine (holds_iff ..).mpr ⟨?_, fun part member => ?_⟩
  · have sameEffects : (effects.map onEffect).map Node.id = effects.map Node.id := by
      rw [List.map_map]
      exact List.map_congr_left effectsSame
    have sameChildren : (children.map onChild).map Node.id = children.map Node.id := by
      rw [List.map_map]
      exact List.map_congr_left childrenSame
    refine own.trans (congrArg some ?_)
    simp only [Placed.cell, Node.effects, Node.children, sameEffects, sameChildren]
    rfl
  · rcases List.mem_append.mp member with effect | child
    · obtain ⟨authored, among, rfl⟩ := List.mem_map.mp effect
      exact effectsHeld authored among
    · obtain ⟨authored, among, rfl⟩ := List.mem_map.mp child
      exact childrenHeld authored among

end Parts

variable [Scalar S] [Scalar P] [Widen S P] [Measure P]

/-- Bringing a node to a time leaves the numbers of all that is below it. -/
theorem update_numbers (node : Node S P) (time : S) (around : Option (Trim.Window S)) :
    (node.update time around).numbers = node.numbers := by
  rw [← Node.rows_numbers none, Node.update_rows, Node.rows_numbers]

/-- Evaluating nodes keeps their numbers, in their order. -/
theorem nodes_update_numbers (nodes : List (Node S P)) (time : S)
    (around : Option (Trim.Window S)) :
    (nodes.map (Node.update time around)).flatMap Node.numbers = nodes.flatMap Node.numbers := by
  rw [List.flatMap_map]
  exact List.flatMap_congr fun node _ => update_numbers node time around

/-! ## Trims among children -/

/-- A child after it has been looked at for its trim: a trim has been brought to the time. -/
def metTrim (time : S) (node : Node S P) : Node S P :=
  if node.kind.isTrim then node.update time none else node

/-- Looking at a child for its trim leaves its numbers. -/
theorem met_trim_numbers (time : S) (node : Node S P) :
    (metTrim time node).numbers = node.numbers := by
  unfold metTrim
  split
  · exact update_numbers node time none
  · rfl

/-- A trim comes out the same under whatever trim is around it, and stays one. -/
theorem trim_updated {node : Node S P} (isTrim : node.kind.isTrim = true) (time : S)
    (around : Option (Trim.Window S)) :
    node.update time none = node.update time around ∧
      (node.update time around).kind.isTrim = true := by
  obtain ⟨head, kind, effects, children⟩ := node
  cases kind with
  | trim trim =>
    cases hidden : head.hidden with
    | true =>
      rw [Node.update_hidden _ _ _ _ _ _ hidden, Node.update_hidden _ _ _ _ _ _ hidden]
      exact ⟨rfl, rfl⟩
    | false =>
      rw [Node.update_leaf _ _ _ _ _ _ hidden rfl, Node.update_leaf _ _ _ _ _ _ hidden rfl]
      exact ⟨rfl, rfl⟩
  | _ => cases isTrim

/-- A hidden child, or one that is no trim, is left as it is. -/
theorem met_trim_kept {node : Node S P} {time : S} (windowless : node.windowAt? time = none) :
    metTrim time node = node := by
  obtain ⟨head, kind, effects, children⟩ := node
  cases kind with
  | trim trim =>
    cases hidden : head.hidden with
    | true => exact Node.update_hidden _ _ _ _ _ _ hidden
    | false => simp [Node.windowAt?, hidden] at windowless
  | _ => rfl

/-- Looking at a child for its trim: the window of a visible trim meets the one in force. -/
theorem meet_trim_held {arena : Arena S P} {parent : Option Nat} {node : Node S P}
    (held : arena.Holds parent node) (distinct : node.numbers.Nodup) (time : S)
    (current : Option (Trim.Window S)) (owns : Bool) :
    ∃ later, meetTrim time (current, owns, arena) node.id =
        some (Node.meetAll current (node.windowAt? time).toList,
          owns || (node.windowAt? time).isSome, later) ∧
      Changed node.numbers arena later ∧ later.Holds parent (metTrim time node) := by
  obtain ⟨head, kind, effects, children⟩ := node
  have own : arena[head.id]? = _ := ((holds_iff ..).mp held).1
  cases window : (Node.mk head kind effects children).windowAt? time with
  | none =>
    refine ⟨arena, ?_, .none _ _, (met_trim_kept window).symm ▸ held⟩
    show meetTrim time (current, owns, arena) head.id = _
    cases kind with
    | trim trim =>
      have hidden : head.hidden = true := by simpa [Node.windowAt?] using window
      simp [meetTrim, own, hidden, Node.meetAll]
    | _ => simp [meetTrim, own, Node.meetAll]
  | some met =>
    cases kind with
    | trim trim =>
      have shown : head.hidden = false := by
        cases hidden : head.hidden with
        | true => simp [Node.windowAt?, hidden] at window
        | false => rfl
      obtain rfl : (trim.update time).window = met := by simpa [Node.windowAt?, shown] using window
      refine ⟨arena.modify head.id (Cell.mapKind fun _ => .trim (trim.update time)), ?_,
        .one (Node.id_mem_numbers _) _ arena, ?_⟩
      · show meetTrim time (current, owns, arena) head.id = _
        simp [meetTrim, own, shown, Node.meetAll]
      · have met : metTrim time (.mk head (.trim trim) effects children) = _ :=
          Node.update_leaf (P := P) time none head (.trim trim) effects children shown rfl
        rw [met]
        exact kind_changed held distinct _
    | _ => simp [Node.windowAt?] at window

/-- Looking at all children for trims gives the trim in force and whether there has been one. -/
theorem meet_trims_held {parent : Option Nat} (time : S) (nodes : List (Node S P))
    (distinct : (nodes.flatMap Node.numbers).Nodup) (arena : Arena S P)
    (held : ∀ node ∈ nodes, arena.Holds parent node) (current : Option (Trim.Window S))
    (owns : Bool) :
    ∃ later, (nodes.map Node.id).foldlM (meetTrim time) (current, owns, arena) =
        some (Node.meetAll current (Node.windowsAt time nodes),
          owns || !(Node.windowsAt time nodes).isEmpty, later) ∧
      Changed (nodes.flatMap Node.numbers) arena later ∧
      ∀ node ∈ nodes, later.Holds parent (metTrim time node) := by
  induction nodes generalizing arena current owns with
  | nil => exact ⟨arena, by simp [Node.windowsAt, Node.meetAll], .none _ _, by simp⟩
  | cons first rest inductionHypothesis =>
    obtain ⟨firstHeld, restHeld⟩ := List.forall_mem_cons.mp held
    rw [List.flatMap_cons, List.nodup_append] at distinct
    obtain ⟨firstDistinct, restDistinct, disjoint⟩ := distinct
    obtain ⟨between, made, firstChanged, firstDone⟩ :=
      meet_trim_held firstHeld firstDistinct time current owns
    have restStill (node : Node S P) (member : node ∈ rest) : between.Holds parent node :=
      firstChanged.held (restHeld node member) fun id own among =>
        disjoint id among id (List.mem_flatMap.mpr ⟨node, member, own⟩) rfl
    obtain ⟨later, restMade, restChanged, restDone⟩ := inductionHypothesis restDistinct between
      restStill (Node.meetAll current (first.windowAt? time).toList)
      (owns || (first.windowAt? time).isSome)
    refine ⟨later, ?_, ?_, List.forall_mem_cons.mpr ⟨?_, restDone⟩⟩
    · rw [List.map_cons, List.foldlM_cons, made, Option.bind_eq_bind, Option.bind_some, restMade]
      cases window : first.windowAt? time <;> simp [Node.windowsAt, Node.meetAll, window]
    · rw [List.flatMap_cons]
      exact firstChanged.append restChanged
    · refine restChanged.held firstDone fun id own among => ?_
      rw [met_trim_numbers] at own
      exact disjoint id own id among rfl

/-! ## Children -/

/-- The second round passes over trims, and brings all other children to the time. -/
theorem rest_updated {update : Nat → S → Option (Trim.Window S) → Arena S P → Option (Arena S P)}
    {parent : Option Nat} {child : Node S P} {time : S} {trim : Option (Trim.Window S)}
    (each : ∀ arena : Arena S P, arena.Holds parent child →
      ∃ later, update child.id time trim arena = some later ∧ Changed child.numbers arena later ∧
        later.Holds parent (child.update time trim))
    (arena : Arena S P) (held : arena.Holds parent (metTrim time child)) :
    ∃ later, updateRest update time trim arena child.id = some later ∧
      Changed child.numbers arena later ∧ later.Holds parent (child.update time trim) := by
  cases isTrim : child.kind.isTrim with
  | true =>
    obtain ⟨same, stays⟩ := trim_updated isTrim time trim
    rw [metTrim, if_pos isTrim, same] at held
    have own := ((holds_iff ..).mp held).1
    rw [Node.update_id] at own
    exact ⟨arena, by simp [updateRest, own, Placed.cell, stays], .none _ _, held⟩
  | false =>
    rw [metTrim, isTrim, if_neg Bool.false_ne_true] at held
    have own := ((holds_iff ..).mp held).1
    obtain ⟨later, made, changed, done⟩ := each arena held
    exact ⟨later, by simp [updateRest, own, Placed.cell, isTrim, made], changed, done⟩

/-- The children of a container are brought to a time under the trim that they make, and nothing
else changes in the end. -/
theorem children_updated
    {update : Nat → S → Option (Trim.Window S) → Arena S P → Option (Arena S P)} {id : Nat}
    {children : List (Node S P)} {arena : Arena S P} {cell : Cell S P}
    (own : arena[id]? = some cell) (listed : cell.children = children.map Node.id)
    (outside : id ∉ children.flatMap Node.numbers)
    (distinct : (children.flatMap Node.numbers).Nodup)
    (held : ∀ child ∈ children, arena.Holds (some id) child) (time : S)
    (around : Option (Trim.Window S))
    (each : ∀ child ∈ children, ∀ trim, ∀ arena : Arena S P, arena.Holds (some id) child →
      ∃ later, update child.id time trim arena = some later ∧ Changed child.numbers arena later ∧
        later.Holds (some id) (child.update time trim)) :
    let windows := Node.windowsAt time children
    let trim := Node.meetAll around windows
    ∃ later, updateChildren update id time around arena = some (trim, !windows.isEmpty, later) ∧
      Changed (children.flatMap Node.numbers) arena later ∧
      ∀ child ∈ children, later.Holds (some id) (child.update time trim) := by
  intro windows trim
  -- The arena while the list is out. No child asks for it, so all of them stay held.
  obtain ⟨taken, out⟩ : ∃ taken : Arena S P, arena.modify id (Cell.withChildren []) = taken :=
    ⟨_, rfl⟩
  have apart (child : Node S P) (member : child ∈ children) : ∀ other ∈ child.numbers,
      other ≠ id := by
    rintro _ within rfl
    exact outside (List.mem_flatMap.mpr ⟨child, member, within⟩)
  have takenHeld (child : Node S P) (member : child ∈ children) : taken.Holds (some id) child :=
    (held child member).kept fun other within =>
      out ▸ List.getElem?_modify_ne _ _ (apart child member other within).symm
  obtain ⟨met, metMade, metChanged, metHeld⟩ :=
    meet_trims_held time children distinct taken takenHeld around false
  obtain ⟨done, doneMade, doneChanged, doneHeld⟩ := nodes_changed (updateRest update time trim)
    children (fun child member => rest_updated (each child member trim))
    (fun child _ => met_trim_numbers time child) (fun child _ => update_numbers child time trim)
    distinct met metHeld
  have places : childrenAt id arena = children.map Node.id := by
    simp [childrenAt, own, listed]
  refine ⟨done.modify id (Cell.withChildren (children.map Node.id)), ?_,
    ⟨?_, fun other elsewhere => ?_⟩, fun child member => ?_⟩
  · simp only [updateChildren, places, out, metMade, Option.bind_eq_bind, Option.bind_some]
    rw [show (children.map Node.id).foldlM (updateRest update time
      (Node.meetAll around (Node.windowsAt time children))) met = some done from doneMade]
    rfl
  · rw [List.length_modify, doneChanged.size, metChanged.size, ← out, List.length_modify]
  · by_cases self : other = id
    · -- Neither round has come to the cell itself, so the list goes back to where it was.
      subst self
      rw [List.getElem?_modify_eq, doneChanged.apart other outside, metChanged.apart other outside,
        ← out, List.getElem?_modify_eq, own, ← listed]
      rfl
    · rw [List.getElem?_modify_ne _ _ (Ne.symm self), doneChanged.apart other elsewhere,
        metChanged.apart other elsewhere, ← out, List.getElem?_modify_ne _ _ (Ne.symm self)]
  · refine (doneHeld child member).kept fun other within => List.getElem?_modify_ne _ _ ?_
    rw [update_numbers] at within
    exact (apart child member other within).symm

/-! ## Containers -/

section Containers

variable {head : Head} {kind : Kind S P} {effects children : List (Node S P)}
variable {arena : Arena S P} {parent : Option Nat}
  (held : arena.Holds parent (.mk head kind effects children))
  (distinct : (Node.mk head kind effects children).numbers.Nodup)
include held distinct

/-- The effects of a layer are brought to a time, and nothing else changes. -/
theorem inner_effects_updated
    (update : Nat → S → Option (Trim.Window S) → Arena S P → Option (Arena S P)) (time : S)
    (each : ∀ effect ∈ effects, ∀ arena : Arena S P, arena.Holds (some head.id) effect →
      ∃ later, update effect.id time none arena = some later ∧ Changed effect.numbers arena later ∧
        later.Holds (some head.id) (effect.update time none)) :
    ∃ later, (effectsAt head.id arena).foldlM
        (fun arena effect => update effect time none arena) arena = some later ∧
      Changed (Node.mk head kind effects children).numbers arena later ∧
      later.Holds parent (.mk head kind (effects.map (Node.update time none)) children) ∧
      (Node.mk head kind (effects.map (Node.update time none)) children).numbers =
        (Node.mk head kind effects children).numbers := by
  obtain ⟨own, effectsHeld, childrenHeld⟩ := held.parts
  obtain ⟨⟨outside, -⟩, effectsDistinct, -, disjoint⟩ := parts_apart distinct
  obtain ⟨later, made, changed, done⟩ := nodes_changed
    (fun arena effect => update effect time none arena) effects each (fun _ _ => rfl)
    (fun effect _ => update_numbers effect time none) effectsDistinct arena effectsHeld
  have places : effectsAt head.id arena = effects.map Node.id := by
    rw [effectsAt, own]
    rfl
  have childrenStill (child : Node S P) (member : child ∈ children) :
      later.Holds (some head.id) child :=
    changed.held (childrenHeld child member) fun id own among =>
      disjoint id among (List.mem_flatMap.mpr ⟨child, member, own⟩)
  have replaced := parts_replaced ((changed.apart _ outside).trans own) (Node.update time none)
    (fun child => child) done childrenStill (fun effect _ => Node.update_id effect time none)
    fun _ _ => rfl
  rw [List.map_id'] at replaced
  exact ⟨later, places ▸ made, changed.among parts_within.1, replaced,
    numbers_replaced kind (nodes_update_numbers effects time none) rfl⟩

/-- The children of a container are brought to a time, and nothing else changes. -/
theorem inner_children_updated
    (update : Nat → S → Option (Trim.Window S) → Arena S P → Option (Arena S P)) (time : S)
    (around : Option (Trim.Window S))
    (each : ∀ child ∈ children, ∀ trim, ∀ arena : Arena S P, arena.Holds (some head.id) child →
      ∃ later, update child.id time trim arena = some later ∧ Changed child.numbers arena later ∧
        later.Holds (some head.id) (child.update time trim)) :
    let windows := Node.windowsAt time children
    let trim := Node.meetAll around windows
    ∃ later, updateChildren update head.id time around arena =
        some (trim, !windows.isEmpty, later) ∧
      Changed (Node.mk head kind effects children).numbers arena later ∧
      later.Holds parent (.mk head kind effects (children.map (Node.update time trim))) ∧
      (Node.mk head kind effects (children.map (Node.update time trim))).numbers =
        (Node.mk head kind effects children).numbers := by
  intro windows trim
  obtain ⟨own, effectsHeld, childrenHeld⟩ := held.parts
  obtain ⟨⟨-, outside⟩, -, childrenDistinct, disjoint⟩ := parts_apart distinct
  obtain ⟨later, made, changed, done⟩ := children_updated own (Placed.cell_children ..) outside
    childrenDistinct childrenHeld time around each
  have effectsStill (effect : Node S P) (member : effect ∈ effects) :
      later.Holds (some head.id) effect :=
    changed.held (effectsHeld effect member) fun id own =>
      disjoint id (List.mem_flatMap.mpr ⟨effect, member, own⟩)
  have replaced := parts_replaced ((changed.apart _ outside).trans own) (fun effect => effect)
    (Node.update time trim) effectsStill done (fun _ _ => rfl)
    fun child _ => Node.update_id child time trim
  rw [List.map_id'] at replaced
  exact ⟨later, made, changed.among parts_within.2, replaced,
    numbers_replaced kind rfl (nodes_update_numbers children time trim)⟩

end Containers

/-! ## Nodes -/

/-- A shown node that is no container has only its own cell changed. -/
theorem leaf_updated {head : Head} {kind : Kind S P} {effects children : List (Node S P)}
    {parent : Option Nat} {arena : Arena S P} (plain : kind.isContainer = false)
    (shown : head.hidden = false) (held : arena.Holds parent (.mk head kind effects children))
    (distinct : (Node.mk head kind effects children).numbers.Nodup) (bound : Nat) (time : S)
    (around : Option (Trim.Window S)) :
    ∃ later, updateFrom (bound + 1) head.id time around arena = some later ∧
      Changed (Node.mk head kind effects children).numbers arena later ∧
      later.Holds parent ((Node.mk head kind effects children).update time around) := by
  have own := held.parts.1
  refine ⟨arena.modify head.id (Cell.mapKind fun _ => kind.updateLeaf time around), ?_,
    .one (Node.id_mem_numbers _) _ arena, ?_⟩
  · cases kind with
    | root | layer | group | effectGroup => cases plain
    | _ => simp [updateFrom, own, shown]
  · rw [Node.update_leaf _ _ _ _ _ _ shown plain]
    exact kind_changed held distinct _

/-- Bringing a node that is held to a time brings its cells there, and no others. -/
theorem update_held {place : Place} {node : Node S P} (fits : node.Fits place)
    {parent : Option Nat} {arena : Arena S P} (held : arena.Holds parent node)
    (distinct : node.numbers.Nodup) {bound : Nat} (room : node.listing.length ≤ bound) (time : S)
    (around : Option (Trim.Window S)) :
    ∃ later, updateFrom bound node.id time around arena = some later ∧
      Changed node.numbers arena later ∧ later.Holds parent (node.update time around) := by
  induction node generalizing place parent arena bound time around with
  | mk head kind effects children effectsUpdated childrenUpdated =>
    obtain ⟨bound, rfl⟩ := Node.some_room room
    have own := held.parts.1
    obtain ⟨-, effectsDistinct, childrenDistinct, -⟩ := parts_apart distinct
    -- What is known of the parts, as the rounds over effects and over children ask for it.
    have eachEffect {inside : Place} (effectsFit : ∀ effect ∈ effects, effect.Fits inside)
        (time : S) (effect : Node S P) (member : effect ∈ effects) (arena : Arena S P)
        (effectHeld : arena.Holds (some head.id) effect) :=
      effectsUpdated effect member (effectsFit effect member) effectHeld
        (effectsDistinct.sublist (List.sublist_flatten_of_mem (List.mem_map_of_mem member)))
        (Node.part_room (List.mem_append_left _ member) room) time none
    have eachChild {inside : Place} (childrenFit : ∀ child ∈ children, child.Fits inside)
        (time : S) (child : Node S P) (member : child ∈ children)
        (trim : Option (Trim.Window S)) (arena : Arena S P)
        (childHeld : arena.Holds (some head.id) child) :=
      childrenUpdated child member (childrenFit child member) childHeld
        (childrenDistinct.sublist (List.sublist_flatten_of_mem (List.mem_map_of_mem member)))
        (Node.part_room (List.mem_append_right _ member) room) time trim
    show ∃ later, updateFrom (bound + 1) head.id time around arena = some later ∧ _
    cases hidden : head.hidden with
    | true =>
      rw [Node.update_hidden _ _ _ _ _ _ hidden]
      exact ⟨arena, by simp [updateFrom, own, hidden], .none _ _, held⟩
    | false =>
      cases fits with
      | root head layers shown layersFit =>
        obtain ⟨later, made, changed, done, -⟩ := inner_children_updated held distinct
          (updateFrom bound) time none (eachChild layersFit time)
        rw [Node.update_container _ _ _ _ _ _ hidden rfl]
        exact ⟨later, by simp [updateFrom, own, hidden, made], changed, done⟩
      | effectGroup head children childrenFit =>
        obtain ⟨later, made, changed, done, -⟩ := inner_children_updated held distinct
          (updateFrom bound) time none (eachChild childrenFit time)
        rw [Node.update_container _ _ _ _ _ _ hidden rfl]
        exact ⟨later, by simp [updateFrom, own, hidden, made], changed, done⟩
      | group head group children childrenFit =>
        obtain ⟨later, made, changed, done, same⟩ := inner_children_updated held distinct
          (updateFrom bound) time around (eachChild childrenFit time)
        rw [Node.update_container _ _ _ _ _ _ hidden rfl]
        let change : Kind S P → Kind S P := setTrim
          (Node.meetAll around (Node.windowsAt time children))
          !(Node.windowsAt time children).isEmpty
        exact ⟨later.modify head.id (Cell.mapKind change),
          by simp [updateFrom, own, hidden, made, change],
          changed.trans (.one (Node.id_mem_numbers _) _ later),
          kind_changed done (same ▸ distinct) change⟩
      | layer head layer effects children effectsFit childrenFit =>
        -- The own cell is changed before anything below it, and once more with the trim at the end.
        have entered := kind_changed held distinct fun _ => .layer (layer.update time layer.trim)
        obtain ⟨between, effectsMade, effectsChanged, effectsDone, effectsSame⟩ :=
          inner_effects_updated entered distinct (updateFrom bound) (layer.localTime time)
            (eachEffect effectsFit _)
        obtain ⟨later, made, changed, done, same⟩ := inner_children_updated effectsDone
          (effectsSame ▸ distinct) (updateFrom bound) (layer.localTime time) none
          (eachChild childrenFit _)
        rw [Node.update_container _ _ _ _ _ _ hidden rfl]
        let change : Kind S P → Kind S P := setTrim
          (Node.meetAll none (Node.windowsAt (layer.localTime time) children))
          !(Node.windowsAt (layer.localTime time) children).isEmpty
        have within : head.id ∈ (Node.mk head (.layer layer) effects children).numbers :=
          Node.id_mem_numbers _
        refine ⟨later.modify head.id (Cell.mapKind change), ?_, ?_,
          kind_changed done (same.trans effectsSame ▸ distinct) change⟩
        · simp [updateFrom, own, hidden, effectsMade, made, change]
        · have begun := (Changed.one within _ arena).trans effectsChanged
          exact (begun.trans (effectsSame ▸ changed)).trans (.one within _ later)
      | plain head kind plain coherent =>
        exact leaf_updated (kind.is_plain_iff.mp plain).2 hidden held distinct bound time around
      | control head kind control =>
        exact leaf_updated (kind.is_control_iff.mp control).2 hidden held distinct bound time around

end VectorMotion.Scene.Arena
