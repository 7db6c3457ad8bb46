import Mathlib.Data.List.Basic
import VectorMotion.Proofs.Render.Grammar
import VectorMotion.Render.Recorder
import VectorMotion.Svg.Drawing

/-!
# Hidden nodes might as well be gone

A node that is hidden stays where it is, and three walks have to pass it over: the one that brings a
tree to a time, the one that looks for trims among the children of a container, and the one that
draws. Here hiding some nodes is compared with taking them out of the lists they stand in. The two
trees stay the same but for the hidden nodes themselves, whatever happens, and they are drawn alike.

Layers are left out of this. A hidden layer is not drawn, but others still follow its transform. The
root stands in no list, so it cannot be taken out of one.
-/

namespace VectorMotion.Scene

variable {S P : Type}

namespace Node

mutual
/-- The node without those effects and children, at any depth, that have one of some numbers. -/
def without (ids : List Nat) : Node S P → Node S P
  | mk head kind effects children =>
    mk head kind (withoutAll ids effects) (withoutAll ids children)

/-- Nodes without those that have one of some numbers, among them and below them. -/
def withoutAll (ids : List Nat) : List (Node S P) → List (Node S P)
  | [] => []
  | node :: rest =>
    if node.id ∈ ids then withoutAll ids rest else without ids node :: withoutAll ids rest
end

/-- Whether a node has none of some numbers. -/
def isOther (ids : List Nat) (node : Node S P) : Bool := node.id ∉ ids

/-- Among some nodes, those with one of the numbers go, and the others lose what is below them. -/
theorem withoutAll_map (ids : List Nat) (nodes : List (Node S P)) :
    withoutAll ids nodes = (nodes.filter (isOther ids)).map (without ids) := by
  induction nodes with
  | nil => rfl
  | cons first rest inductionHypothesis =>
    by_cases chosen : first.id ∈ ids <;>
      simp [withoutAll, isOther, chosen, inductionHypothesis]

/-- A node whose head is kept has the same number. -/
theorem modify_id (id : Nat) (hidden : Bool) (node : Node S P) :
    (node.modify id (setHidden hidden)).id = node.id := by
  obtain ⟨head, kind, effects, children⟩ := node
  rw [modify]
  split <;> rfl

/-- Nodes that are hidden before they are taken out leave nothing behind. -/
theorem hidden_without (ids : List Nat) (id : Nat) (chosen : id ∈ ids) (node : Node S P)
    (other : node.id ∉ ids) :
    (node.modify id (setHidden true)).without ids = node.without ids := by
  induction node with
  | mk head kind effects children effectsGone childrenGone =>
    have parts (nodes : List (Node S P))
        (gone : ∀ node ∈ nodes, node.id ∉ ids →
          (node.modify id (setHidden true)).without ids = node.without ids) :
        withoutAll ids (nodes.map (modify id (setHidden true))) = withoutAll ids nodes := by
      have sameIds : isOther ids ∘ modify id (setHidden true) = isOther (S := S) (P := P) ids := by
        funext node
        simp [isOther, modify_id]
      rw [withoutAll_map, withoutAll_map, List.filter_map, List.map_map, sameIds]
      refine List.map_congr_left fun node member => ?_
      obtain ⟨inside, isOther⟩ := List.mem_filter.mp member
      exact gone node inside (by simpa [Node.isOther] using isOther)
    have different : (head.id == id) = false := by
      rw [beq_eq_false_iff_ne]
      rintro rfl
      exact other chosen
    simp only [modify, different, Bool.false_eq_true, ↓reduceIte, modifyAll_map, without,
      parts effects effectsGone, parts children childrenGone]

/-- A node in which those with some numbers are hidden, itself and below it. Nothing is said of what
is below a hidden node. -/
inductive Sealed (ids : List Nat) : Node S P → Prop where
  | closed (head : Head) (kind : Kind S P) (effects children : List (Node S P))
      (chosen : head.id ∈ ids) (hidden : head.hidden = true) :
      Sealed ids (mk head kind effects children)
  | parts (head : Head) (kind : Kind S P) (effects children : List (Node S P))
      (other : head.id ∉ ids) (effectsSealed : ∀ effect ∈ effects, Sealed ids effect)
      (childrenSealed : ∀ child ∈ children, Sealed ids child) :
      Sealed ids (mk head kind effects children)

/-- A node that is sealed for no numbers at all. -/
theorem sealed_nothing (node : Node S P) : Sealed [] node := by
  induction node with
  | mk head kind effects children effectsSealed childrenSealed =>
    exact .parts _ _ _ _ (by simp) effectsSealed childrenSealed

/-- Hiding one more node seals one more number. -/
theorem Sealed.hide {ids : List Nat} {node : Node S P} (isSealed : Sealed ids node) (id : Nat) :
    Sealed (ids ++ [id]) (node.modify id (setHidden true)) := by
  induction isSealed with
  | closed head kind effects children chosen hidden =>
    rw [modify]
    split
    · exact .closed _ _ _ _ (by simp [chosen]) rfl
    · exact .closed _ _ _ _ (by simp [chosen]) hidden
  | parts head kind effects children other effectsSealed childrenSealed effectsHide childrenHide =>
    rw [modify]
    split
    case isTrue same => exact .closed _ _ _ _ (by simpa using .inr (beq_iff_eq.mp same)) rfl
    case isFalse different =>
      refine .parts _ _ _ _ ?_ ?_ ?_
      · simpa [other] using different
      · rw [modifyAll_map]
        exact List.forall_mem_map.mpr effectsHide
      · rw [modifyAll_map]
        exact List.forall_mem_map.mpr childrenHide

/-- In a sealed node, a child with one of the numbers is hidden. -/
theorem Sealed.hidden {ids : List Nat} {node : Node S P} (isSealed : Sealed ids node)
    (chosen : node.id ∈ ids) : node.head.hidden = true := by
  cases isSealed with
  | closed head kind effects children member hidden => exact hidden
  | parts head kind effects children other => exact absurd chosen other

/-- A shown node of a sealed list stays in it. -/
theorem mem_without {ids : List Nat} {node : Node S P} {nodes : List (Node S P)}
    (isSealed : Sealed ids node) (shown : node.head.hidden = false) (member : node ∈ nodes) :
    node.without ids ∈ withoutAll ids nodes := by
  have other : node.id ∉ ids := fun chosen => by simp [isSealed.hidden chosen] at shown
  rw [withoutAll_map]
  exact List.mem_map_of_mem (List.mem_filter.mpr ⟨member, by simpa [isOther] using other⟩)

/-- What can be seen in a sealed tree is still there, in the same place, once hidden nodes have been
taken out. -/
theorem Way.without {ids : List Nat} {top node : Node S P} {path : List (Node S P)}
    (way : Way top path node) (isSealed : Sealed ids top)
    (shown : ∀ passed ∈ path ++ [node], passed.head.hidden = false) :
    Way (top.without ids) (path.map (Node.without ids)) (node.without ids) := by
  induction way with
  | here node => exact .here _
  | child top next node path member rest inductionHypothesis =>
    have showing : ∀ passed ∈ path ++ [node], passed.head.hidden = false :=
      fun passed inside => shown passed (List.mem_cons_of_mem _ inside)
    have nextShown : next.head.hidden = false := showing next (by cases rest <;> simp)
    cases isSealed with
    | closed head kind effects children chosen hidden =>
      have visible : head.hidden = false := shown _ List.mem_cons_self
      simp [hidden] at visible
    | parts head kind effects children other effectsSealed childrenSealed =>
      have nextSealed := childrenSealed next member
      exact .child _ _ _ _ (mem_without nextSealed nextShown member)
        (inductionHypothesis nextSealed showing)
  | effect top next node path member rest inductionHypothesis =>
    have showing : ∀ passed ∈ path ++ [node], passed.head.hidden = false :=
      fun passed inside => shown passed (List.mem_cons_of_mem _ inside)
    have nextShown : next.head.hidden = false := showing next (by cases rest <;> simp)
    cases isSealed with
    | closed head kind effects children chosen hidden =>
      have visible : head.hidden = false := shown _ List.mem_cons_self
      simp [hidden] at visible
    | parts head kind effects children other effectsSealed childrenSealed =>
      have nextSealed := effectsSealed next member
      exact .effect _ _ _ _ (mem_without nextSealed nextShown member)
        (inductionHypothesis nextSealed showing)

/-- Nodes from which nothing is gathered can be taken out of a list that something is gathered
from. -/
theorem withoutAll_flatMap {A : Type} (ids : List Nat) (nodes : List (Node S P))
    (gather : Node S P → List A)
    (silent : ∀ node ∈ nodes, node.id ∈ ids → gather node = [])
    (kept : ∀ node ∈ nodes, node.id ∉ ids → gather (node.without ids) = gather node) :
    (withoutAll ids nodes).flatMap gather = nodes.flatMap gather := by
  induction nodes with
  | nil => rfl
  | cons first rest inductionHypothesis =>
    have behind := inductionHypothesis
      (fun node member => silent node (List.mem_cons_of_mem _ member))
      fun node member => kept node (List.mem_cons_of_mem _ member)
    by_cases chosen : first.id ∈ ids
    · rw [withoutAll, if_pos chosen, List.flatMap_cons, behind,
        silent first List.mem_cons_self chosen, List.nil_append]
    · rw [withoutAll, if_neg chosen, List.flatMap_cons, List.flatMap_cons, behind,
        kept first List.mem_cons_self chosen]

/-- Hidden trims have no window, so taking them out changes nothing for the others. -/
theorem windows_without [Scalar S] {ids : List Nat} {nodes : List (Node S P)}
    (allSealed : ∀ node ∈ nodes, Sealed ids node) (time : S) :
    windowsAt time (withoutAll ids nodes) = windowsAt time nodes := by
  rw [windowsAt, windowsAt, List.filterMap_eq_flatMap_toList, List.filterMap_eq_flatMap_toList]
  refine withoutAll_flatMap _ _ _ (fun node member chosen => ?_) fun node member _ => ?_
  · have hidden := (allSealed node member).hidden chosen
    obtain ⟨head, kind, effects, children⟩ := node
    change head.hidden = true at hidden
    cases kind <;> simp [windowAt?, hidden]
  · obtain ⟨head, kind, effects, children⟩ := node
    cases kind <;> rfl

section Update

variable [Scalar S] [Scalar P] [Widen S P] [Measure P]

/-- A sealed node stays sealed when it is brought to a time. -/
theorem Sealed.update {ids : List Nat} {node : Node S P} (isSealed : Sealed ids node) (time : S)
    (around : Option (Trim.Window S)) : Sealed ids (node.update time around) := by
  induction isSealed generalizing time around with
  | closed head kind effects children chosen hidden =>
    rw [update_hidden _ _ _ _ _ _ hidden]
    exact .closed _ _ _ _ chosen hidden
  | parts head kind effects children other effectsSealed childrenSealed effectsKept childrenKept =>
    cases hidden : head.hidden with
    | true =>
      rw [update_hidden _ _ _ _ _ _ hidden]
      exact .parts _ _ _ _ other effectsSealed childrenSealed
    | false =>
      cases container : kind.isContainer with
      | true =>
        rw [update_container _ _ _ _ _ _ hidden container]
        exact .parts _ _ _ _ other
          (List.forall_mem_map.mpr fun effect member => effectsKept effect member _ _)
          (List.forall_mem_map.mpr fun child member => childrenKept child member _ _)
      | false =>
        rw [update_leaf _ _ _ _ _ _ hidden container]
        exact .parts _ _ _ _ other effectsSealed childrenSealed

/-- Taking hidden nodes out of a tree that is brought to a time, before or after.

The induction follows the tree. The windows that a container sees are those of trims that are shown,
so what it hands down does not depend on hidden nodes. -/
theorem update_without {ids : List Nat} {node : Node S P} (isSealed : Sealed ids node) (time : S)
    (around : Option (Trim.Window S)) (other : node.id ∉ ids) :
    (node.update time around).without ids = (node.without ids).update time around := by
  induction isSealed generalizing time around with
  | closed head kind effects children chosen hidden => exact absurd chosen other
  | parts head kind effects children other effectsSealed childrenSealed effectsSame childrenSame =>
    cases hidden : head.hidden with
    | true =>
      rw [without, update_hidden _ _ _ _ _ _ hidden, update_hidden _ _ _ _ _ _ hidden, without]
    | false =>
      cases container : kind.isContainer with
      | false =>
        rw [without, update_leaf _ _ _ _ _ _ hidden container,
          update_leaf _ _ _ _ _ _ hidden container, without]
      | true =>
        have parts (nodes : List (Node S P)) (inner : S) (trim : Option (Trim.Window S))
            (same : ∀ node ∈ nodes, ∀ (time : S) (around : Option (Trim.Window S)),
              node.id ∉ ids →
              (node.update time around).without ids = (node.without ids).update time around) :
            withoutAll ids (nodes.map (update inner trim)) =
              (withoutAll ids nodes).map (update inner trim) := by
          have sameIds : isOther ids ∘ update inner trim = isOther (S := S) (P := P) ids := by
            funext node
            simp [isOther, update_id]
          rw [withoutAll_map, withoutAll_map, List.filter_map, List.map_map, List.map_map, sameIds]
          refine List.map_congr_left fun node member => ?_
          obtain ⟨inside, isOther⟩ := List.mem_filter.mp member
          exact same node inside _ _ (by simpa [Node.isOther] using isOther)
        rw [without, update_container _ _ _ _ _ _ hidden container,
          update_container _ _ _ _ _ _ hidden container]
        simp only [without, windows_without childrenSealed, parts effects _ _ effectsSame,
          parts children _ _ childrenSame]

/-- A node is a layer, or is none, at every time. -/
theorem update_no_layer (node : Node S P) (time : S) (around : Option (Trim.Window S))
    (noLayer : node.layer? = none) : (node.update time around).layer? = none := by
  obtain ⟨head, kind, effects, children⟩ := node
  rw [update]
  split
  · exact noLayer
  · cases kind with
    | layer => cases noLayer
    | _ => rfl

end Update

/-- What is left of a tree in which some nodes are being hidden is the tree that they have been taken
out of. So far those with the numbers in `done` are hidden. None of the nodes that are to be hidden is
the root, and none of them is a layer that others may follow. -/
structure Conceals (ids done : List Nat) (hidden removed : Node S P) : Prop where
  isSealed : Sealed done hidden
  other : hidden.id ∉ ids
  noLayers : ∀ child ∈ hidden.children, child.id ∈ ids → child.layer? = none
  left : hidden.without ids = removed

namespace Conceals

variable {ids done : List Nat} {hidden removed : Node S P}

/-- Before anything is hidden. -/
theorem start (root : Node S P) (other : root.id ∉ ids)
    (noLayers : ∀ node ∈ root.listing, node.id ∈ ids → node.layer? = none) :
    Conceals ids [] root (root.without ids) := by
  refine ⟨sealed_nothing root, other, fun child member chosen => noLayers child ?_ chosen, rfl⟩
  obtain ⟨head, kind, effects, children⟩ := root
  refine (mem_listing _ _ _ _ _).mpr (.inr (.inr ⟨child, member, ?_⟩))
  obtain ⟨head, kind, effects, children⟩ := child
  exact List.mem_cons_self

/-- One more node is hidden. -/
theorem hide (conceals : Conceals ids done hidden removed) (id : Nat) (chosen : id ∈ ids) :
    Conceals ids (done ++ [id]) (hidden.modify id (setHidden true)) removed := by
  refine ⟨conceals.isSealed.hide id, ?_, ?_, ?_⟩
  · rw [modify_id]
    exact conceals.other
  · obtain ⟨head, kind, effects, children⟩ := hidden
    have different : (head.id == id) = false := by
      rw [beq_eq_false_iff_ne]
      rintro rfl
      exact conceals.other chosen
    simp only [modify, different, Bool.false_eq_true, ↓reduceIte, modifyAll_map, Node.children]
    refine List.forall_mem_map.mpr fun child member isChosen => ?_
    have noLayer := conceals.noLayers child member (by rwa [modify_id] at isChosen)
    obtain ⟨head, kind, effects, children⟩ := child
    rw [modify]
    split <;> exact noLayer
  · rw [hidden_without ids id chosen hidden conceals.other, conceals.left]

/-- All of them are hidden, one after the other. -/
theorem hideAll (conceals : Conceals ids done hidden removed) (others : List Nat)
    (chosen : ∀ id ∈ others, id ∈ ids) :
    Conceals ids (done ++ others)
      (others.foldl (fun node id => node.modify id (setHidden true)) hidden) removed := by
  induction others generalizing done hidden with
  | nil => simpa using conceals
  | cons id rest inductionHypothesis =>
    have next := inductionHypothesis (conceals.hide id (chosen id List.mem_cons_self))
      fun other member => chosen other (List.mem_cons_of_mem _ member)
    simpa using next

/-- Both trees are brought to a time. -/
theorem update [Scalar S] [Scalar P] [Widen S P] [Measure P]
    (conceals : Conceals ids ids hidden removed) (time : S) (around : Option (Trim.Window S)) :
    Conceals ids ids (hidden.update time around) (removed.update time around) := by
  refine ⟨conceals.isSealed.update time around, ?_, ?_, ?_⟩
  · rw [update_id]
    exact conceals.other
  · obtain ⟨head, kind, effects, children⟩ := hidden
    cases shown : head.hidden with
    | true =>
      rw [update_hidden _ _ _ _ _ _ shown]
      exact conceals.noLayers
    | false =>
      cases container : kind.isContainer with
      | false =>
        rw [update_leaf _ _ _ _ _ _ shown container]
        exact conceals.noLayers
      | true =>
        rw [update_container _ _ _ _ _ _ shown container]
        refine List.forall_mem_map.mpr fun child member isChosen => ?_
        rw [update_id] at isChosen
        exact update_no_layer child _ _ (conceals.noLayers child member isChosen)
  · rw [update_without conceals.isSealed time around conceals.other, conceals.left]

end Conceals

end Node

/-- A tree with some of its nodes hidden. -/
def Tree.hide [Scalar S] [Scalar P] [Widen S P] [Measure P] (tree : Tree S P) (ids : List Nat) :
    Tree S P :=
  ids.foldl (fun tree id => tree.setHidden id true) tree

/-- A tree with some of its nodes taken out of the lists of effects and children they stand in. -/
def Tree.without (tree : Tree S P) (ids : List Nat) : Tree S P :=
  { tree with root := tree.root.without ids }

section Trees

variable [Scalar S] [Scalar P] [Widen S P] [Measure P]

/-- Hiding nodes of a tree hides them under its root. -/
theorem Tree.hide_root (tree : Tree S P) (ids : List Nat) : (tree.hide ids).root =
    ids.foldl (fun node id => node.modify id (Node.setHidden true)) tree.root := by
  unfold Tree.hide
  induction ids generalizing tree with
  | nil => rfl
  | cons id rest inductionHypothesis => exact inductionHypothesis _

/-- A tree with nodes hidden and one with the same nodes taken out. -/
theorem Tree.hide_conceals (tree : Tree S P) (ids : List Nat) (notRoot : tree.root.id ∉ ids)
    (noLayers : ∀ node ∈ tree.root.listing, node.id ∈ ids → node.layer? = none) :
    Node.Conceals ids ids (tree.hide ids).root (tree.without ids).root := by
  rw [tree.hide_root]
  exact (Node.Conceals.start tree.root notRoot noLayers).hideAll ids fun id member => member

/-- Both trees are brought to some frames. -/
theorem Node.Conceals.play {ids : List Nat} {hidden removed : Tree S P}
    (conceals : Node.Conceals ids ids hidden.root removed.root) (frames : List S) :
    Node.Conceals ids ids (frames.foldl Tree.update hidden).root
      (frames.foldl Tree.update removed).root := by
  induction frames generalizing hidden removed with
  | nil => exact conceals
  | cons frame rest inductionHypothesis =>
    have next : Node.Conceals ids ids (hidden.update frame).root (removed.update frame).root :=
      conceals.update frame none
    exact inductionHypothesis next

end Trees

end VectorMotion.Scene

namespace VectorMotion.Render

open Scene

variable {S P : Type}

namespace Call

/-- Hidden nodes give no calls, so a node is drawn as it is without them. -/
theorem of_without {ids : List Nat} {node : Node S P} (isSealed : node.Sealed ids)
    (followed : List (LayerEntry S)) :
    ofNode followed (node.without ids) = ofNode followed node := by
  induction isSealed with
  | closed head kind effects children chosen hidden =>
    rw [Node.without, of_hidden _ _ _ _ _ hidden, of_hidden _ _ _ _ _ hidden]
  | parts head kind effects children other effectsSealed childrenSealed effectsSame childrenSame =>
    have parts (nodes : List (Node S P)) (allSealed : ∀ node ∈ nodes, node.Sealed ids)
        (same : ∀ node ∈ nodes, ofNode followed (node.without ids) = ofNode followed node) :
        ofNodes followed (Node.withoutAll ids nodes) = ofNodes followed nodes := by
      rw [ofNodes_flatMap, ofNodes_flatMap]
      refine Node.withoutAll_flatMap _ _ _ (fun node member chosen => ?_)
        fun node member _ => same node member
      obtain ⟨head, kind, effects, children⟩ := node
      exact of_hidden _ _ _ _ _ ((allSealed _ member).hidden chosen)
    simp only [Node.without, ofNode, parts effects effectsSealed effectsSame,
      parts children childrenSealed childrenSame]

/-- Trees that differ in hidden nodes are drawn alike. -/
theorem of_concealed {ids : List Nat} {hidden removed : Node S P}
    (conceals : Node.Conceals ids ids hidden removed) : ofRoot hidden = ofRoot removed := by
  have followed : Parenting.entries removed.children = Parenting.entries hidden.children := by
    rw [← conceals.left]
    obtain ⟨head, kind, effects, children⟩ := hidden
    rw [Parenting.entries, Parenting.entries, List.filterMap_eq_flatMap_toList,
      List.filterMap_eq_flatMap_toList]
    refine Node.withoutAll_flatMap _ _ _ (fun child member chosen => ?_) fun child _ _ => ?_
    · rw [conceals.noLayers child member chosen]
      rfl
    · obtain ⟨head, kind, effects, children⟩ := child
      rfl
  rw [ofRoot, ofRoot, followed, ← conceals.left, of_without conceals.isSealed]

end Call

variable [Scalar S] [Scalar P] [Widen S P] [Measure P]

/-- Hiding nodes of a tree that are not its root and no layers, and then bringing the tree to some
frames, is as good as taking them out of the lists they stand in and doing the same. Any recording of
the two trees is the same, and so is the markup. The trees differ in the hidden nodes alone: whatever
else can be seen is in both, with the same state, which includes the trim in force for it. -/
theorem hidden_absent [Written S] [Written P] (tree : Tree S P) (ids : List Nat)
    (notRoot : tree.root.id ∉ ids)
    (noLayers : ∀ node ∈ tree.root.listing, node.id ∈ ids → node.layer? = none)
    (frames : List S) :
    let hidden := frames.foldl Tree.update (tree.hide ids)
    let removed := frames.foldl Tree.update (tree.without ids)
    (∀ before : Recording P, before.answerAll (Call.ofRoot hidden.root) =
      before.answerAll (Call.ofRoot removed.root)) ∧
    (∀ width height, Svg.document width height (Canvas.ofCalls (Call.ofRoot hidden.root)) =
      Svg.document width height (Canvas.ofCalls (Call.ofRoot removed.root))) ∧
    hidden.root.without ids = removed.root ∧
    ∀ path node, Node.Way hidden.root path node →
      (∀ passed ∈ path ++ [node], passed.head.hidden = false) →
      ∃ otherPath other, Node.Way removed.root otherPath other ∧ other.head = node.head ∧
        other.kind = node.kind := by
  intro hidden removed
  have conceals : Node.Conceals ids ids hidden.root removed.root :=
    (tree.hide_conceals ids notRoot noLayers).play frames
  have drawnAlike := Call.of_concealed conceals
  refine ⟨fun before => ?_, fun width height => ?_, conceals.left, fun path node way shown => ?_⟩
  · rw [drawnAlike]
  · rw [drawnAlike]
  · have found := way.without conceals.isSealed shown
    rw [conceals.left] at found
    obtain ⟨head, kind, effects, children⟩ := node
    exact ⟨_, _, found, rfl, rfl⟩

/-- The two trims of a layer with a trimmed group in it give the same recording when they are hidden as
when they are taken out. -/
theorem trims_hidden_or_gone :
    let tree : Tree Float32 Float := Tree.ofDocument {} trimmedTwice
    let trims := (tree.root.listing.filter fun node => node.visibleTrim?.isSome).map Node.id
    let hidden := [0, 12].foldl Tree.update (tree.hide trims)
    let removed := [0, 12].foldl Tree.update (tree.without trims)
    trims.length = 2 ∧
      Recording.ofCalls (Call.ofRoot hidden.root) = Recording.ofCalls (Call.ofRoot removed.root) := by
  intro tree trims hidden removed
  have notRoot : tree.root.id ∉ trims := by decide +kernel
  have noLayers : (tree.root.listing.all fun node =>
      decide (node.id ∉ trims) || node.layer?.isNone) = true := by decide +kernel
  have alike := hidden_absent tree trims notRoot (fun node listed chosen => by
    simpa [chosen] using List.all_eq_true.mp noLayers node listed) [0, 12]
  exact ⟨by decide +kernel, alike.1 {}⟩

end VectorMotion.Render
