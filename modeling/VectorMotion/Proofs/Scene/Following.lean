import Mathlib.Logic.Relation
import VectorMotion.Proofs.Scene.Growth

/-!
# What a layer follows

Following is a partial function on the layers under the root, so from any layer there is one way on,
which ends, or comes back to a layer that has been passed. The chain of a layer goes along it up to
there. It is at most as long as there are layers, and what the numbers of the document are does not
matter for that.

The chain of a layer is the one of its parent behind the parent itself, unless the layer follows
itself at some distance: then the chain of the parent goes on past the layer.
-/

namespace VectorMotion.Scene

variable {S P : Type}

namespace Parenting

/-- One layer follows another one. -/
def Follows (layers : List (LayerEntry S)) (entry parent : LayerEntry S) : Prop :=
  parent? layers entry.2 = some parent

/-- The layers that are met on the way from a layer on, each followed by the one before it, as far as
none is met twice. -/
structure IsLine (layers : List (LayerEntry S)) (start : LayerEntry S)
    (chain : List (LayerEntry S)) : Prop where
  among : ∀ entry ∈ chain, entry ∈ layers
  /-- No layer is met twice, and the first one is not met again. -/
  distinct : ((start :: chain).map fun entry => entry.1.id).Nodup
  linked : (start :: chain).IsChain (Follows layers)
  /-- The last one follows none, or one that has been met. -/
  ended : ∀ last ∈ (start :: chain).getLast?, ∀ next, Follows layers last next →
    next.1.id ∈ (start :: chain).map fun entry => entry.1.id

variable {layers : List (LayerEntry S)}

/-- What is followed is a layer under the root. -/
theorem Follows.among {entry parent : LayerEntry S} (follows : Follows layers entry parent) :
    parent ∈ layers := by
  rw [Follows, parent?] at follows
  split at follows
  · obtain ⟨id, -, found⟩ := Option.bind_eq_some_iff.mp follows
    exact List.mem_of_find?_eq_some found
  · obtain ⟨index, -, found⟩ := Option.bind_eq_some_iff.mp follows
    exact List.mem_of_find?_eq_some found

/-- What is met on the way from a layer is a layer under the root. -/
theorem reached_among {entry last : LayerEntry S}
    (reaches : Relation.TransGen (Follows layers) entry last) : last ∈ layers := by
  cases reaches with
  | single follows => exact follows.among
  | tail _ follows => exact follows.among

/-- A chain through layers that have not been visited goes on from the one it starts behind, and ends
where the next layer is that from which the way has started, or has been visited. -/
theorem chain_from_line (start : Nat) (unvisited : List Nat) (current : LayerEntry S)
    (distinct : unvisited.Nodup) :
    let chain := chainFrom layers start unvisited current.2
    (∀ entry ∈ chain, entry ∈ layers ∧ entry.1.id ≠ start ∧ entry.1.id ∈ unvisited) ∧
      (chain.map fun entry => entry.1.id).Nodup ∧
      (current :: chain).IsChain (Follows layers) ∧
      ∀ last ∈ (current :: chain).getLast?, ∀ next, Follows layers last next →
        next.1.id = start ∨ next.1.id ∉ unvisited ∨
          next.1.id ∈ chain.map fun entry => entry.1.id := by
  obtain ⟨owner, layer⟩ := current
  simp only
  fun_induction chainFrom layers start unvisited layer generalizing owner with
  | case1 unvisited layer alone =>
    refine ⟨by simp, List.nodup_nil, .singleton _, ?_⟩
    intro last isLast next follows
    obtain rfl : (owner, layer) = last := Option.some.inj isLast
    exact absurd (alone.symm.trans follows) (by simp)
  | case2 unvisited layer head next followed fresh inductionHypothesis =>
    obtain ⟨notStart, inside⟩ := fresh
    obtain ⟨among, restDistinct, linked, ended⟩ :=
      inductionHypothesis (distinct.erase head.id) head
    refine ⟨?_, ?_, List.isChain_cons_cons.mpr ⟨followed, linked⟩, ?_⟩
    · rintro entry (_ | ⟨_, member⟩)
      · have follows : Follows layers (owner, layer) (head, next) := followed
        exact ⟨follows.among, by simpa using notStart, inside⟩
      · obtain ⟨isLayer, other, unseen⟩ := among entry member
        exact ⟨isLayer, other, List.mem_of_mem_erase unseen⟩
    · refine List.nodup_cons.mpr ⟨fun again => ?_, restDistinct⟩
      obtain ⟨entry, member, same⟩ := List.mem_map.mp again
      exact distinct.not_mem_erase (same ▸ (among entry member).2.2)
    · intro last isLast other follows
      rw [List.getLast?_cons_cons] at isLast
      rcases ended last isLast other follows with back | seen | met
      · exact .inl back
      · by_cases here : other.1.id = head.id
        · exact .inr (.inr (List.mem_cons.mpr (.inl here)))
        · exact .inr (.inl fun unseen => seen ((List.mem_erase_of_ne here).mpr unseen))
      · exact .inr (.inr (List.mem_cons_of_mem _ met))
  | case3 unvisited layer head next followed visited =>
    refine ⟨by simp, List.nodup_nil, .singleton _, ?_⟩
    intro last isLast other follows
    obtain rfl : (owner, layer) = last := Option.some.inj isLast
    obtain rfl : (head, next) = other := Option.some.inj (followed.symm.trans follows)
    by_cases back : head.id = start
    · exact .inl back
    · exact .inr (.inl fun unseen => visited ⟨by simpa using back, unseen⟩)

/-- The chain of a layer is the way on from it. -/
theorem chain_line (distinct : (layers.map fun entry => entry.1.id).Nodup)
    (start : LayerEntry S) : IsLine layers start (chain layers start.1 start.2) := by
  obtain ⟨among, once, linked, ended⟩ := chain_from_line start.1.id _ start distinct
  refine ⟨fun entry member => (among entry member).1, ?_, linked, ?_⟩
  · refine List.nodup_cons.mpr ⟨fun again => ?_, once⟩
    obtain ⟨entry, member, same⟩ := List.mem_map.mp again
    exact (among entry member).2.1 same
  · intro last isLast next follows
    rcases ended last isLast next follows with back | unknown | met
    · exact List.mem_cons.mpr (.inl back)
    · exact absurd (List.mem_map_of_mem follows.among) unknown
    · exact List.mem_cons_of_mem _ met

/-- The way on is no longer than there are layers. -/
theorem IsLine.length_le {start : LayerEntry S} {chain : List (LayerEntry S)}
    (line : IsLine layers start chain) : chain.length ≤ layers.length := by
  have within : chain.map (fun entry => entry.1.id) ⊆ layers.map fun entry => entry.1.id :=
    List.map_subset _ line.among
  simpa using (List.subperm_of_subset (List.nodup_cons.mp line.distinct).2 within).length_le

/-- Along a way that never comes to the start it is the same to have started there, having visited
one layer, and to have started from that layer. -/
theorem chain_from_passed (start owner : Nat) (unvisited : List Nat) (layer : Layer S)
    (distinct : unvisited.Nodup)
    (apart : ∀ first last, parent? layers layer = some first →
      Relation.ReflTransGen (Follows layers) first last → last.1.id ≠ start) :
    chainFrom layers start (unvisited.erase owner) layer =
      chainFrom layers owner unvisited layer := by
  fun_induction chainFrom layers owner unvisited layer with
  | case1 unvisited layer alone => rw [chainFrom, alone]
  | case2 unvisited layer head next followed fresh inductionHypothesis =>
    obtain ⟨notOwner, inside⟩ := fresh
    have other : head.id ≠ owner := by simpa using notOwner
    have onward : head.id ≠ start := apart _ _ followed .refl
    rw [chainFrom, followed]
    simp only
    rw [dif_pos ⟨by simpa using onward, (List.mem_erase_of_ne other).mpr inside⟩, List.erase_comm,
      inductionHypothesis (distinct.erase _) fun first last follows reaches =>
        apart _ _ followed (.head follows reaches)]
  | case3 unvisited layer head next followed visited =>
    rw [chainFrom, followed]
    simp only
    refine dif_neg fun fresh => visited ⟨?_, List.mem_of_mem_erase fresh.2⟩
    have other : head.id ≠ owner := fun same => distinct.not_mem_erase (same ▸ fresh.2)
    simpa using other

/-- Unless a layer is met again on the way from it, its chain is that of its parent behind the
parent. -/
theorem chain_parent (distinct : (layers.map fun entry => entry.1.id).Nodup)
    {start parent : LayerEntry S} (follows : Follows layers start parent)
    (apart : ∀ last, Relation.TransGen (Follows layers) start last → last.1.id ≠ start.1.id) :
    chain layers start.1 start.2 = parent :: chain layers parent.1 parent.2 := by
  have inside : parent.1.id ∈ layers.map fun entry => entry.1.id := List.mem_map_of_mem follows.among
  have onward : parent.1.id ≠ start.1.id := apart parent (.single follows)
  rw [chain, chainFrom, show parent? layers start.2 = some parent from follows]
  simp only
  rw [dif_pos ⟨by simpa using onward, inside⟩, chain,
    chain_from_passed _ _ _ _ distinct fun first last followed reaches =>
      apart last (.trans_left (.tail (.single follows) followed) reaches)]

/-- A layer from which the way leads back to it. -/
def OnCircle (layers : List (LayerEntry S)) (entry : LayerEntry S) : Prop :=
  Relation.TransGen (Follows layers) entry entry

/-- A layer on a circle is under the root, and one under the root follows it. -/
theorem OnCircle.followed {entry : LayerEntry S} (circle : OnCircle layers entry) :
    entry ∈ layers ∧ ∃ other ∈ layers, Follows layers other entry := by
  cases circle with
  | single follows => exact ⟨follows.among, entry, follows.among, follows⟩
  | @tail other _ reaches follows => exact ⟨follows.among, other, reached_among reaches, follows⟩

end Parenting

open Parenting

namespace Tree

/-- The layers that a layer of a tree follows are the way on from it. -/
theorem Counted.parents_line {tree : Tree S P} (counted : tree.Counted) {node : Node S P}
    {layer : Layer S} (isLayer : node.layer? = some layer) :
    IsLine tree.layers (node.head, layer) (tree.parents node) := by
  rw [Tree.parents, isLayer]
  exact chain_line counted.layers_distinct (node.head, layer)

/-- Unless a layer of a tree is on a circle, no layer with its number is met on the way from it. -/
theorem Counted.never_back {tree : Tree S P} (counted : tree.Counted) {placed : Placed S P}
    (standing : placed ∈ tree.placed) {layer : Layer S} (isLayer : placed.node.layer? = some layer)
    (noCircle : ¬OnCircle tree.layers (placed.node.head, layer)) (last : LayerEntry S)
    (reaches : Relation.TransGen (Follows tree.layers) (placed.node.head, layer) last) :
    last.1.id ≠ placed.node.head.id := by
  intro same
  obtain ⟨head, content⟩ := counted.layer_unique standing (reached_among reaches) same.symm
  have back : last = (placed.node.head, layer) :=
    Prod.ext head.symm (Option.some.inj (content.symm.trans isLayer))
  exact noCircle (back ▸ reaches)

/-- Unless a layer of a tree is on a circle, it follows its parent, and then what its parent
follows. -/
theorem Counted.parents_behind {tree : Tree S P} (counted : tree.Counted) {placed : Placed S P}
    (standing : placed ∈ tree.placed) {layer : Layer S} (isLayer : placed.node.layer? = some layer)
    {parent : LayerEntry S} (follows : parent? tree.layers layer = some parent)
    (noCircle : ¬OnCircle tree.layers (placed.node.head, layer)) :
    ∃ other ∈ tree.root.children, other.head = parent.1 ∧ other.layer? = some parent.2 ∧
      tree.parents placed.node = parent :: tree.parents other := by
  have followed : Follows tree.layers (placed.node.head, layer) parent := follows
  obtain ⟨other, child, head, content⟩ := (tree.mem_layers parent).mp followed.among
  refine ⟨other, child, head, content, ?_⟩
  rw [Tree.parents, Tree.parents, isLayer, content, head]
  exact chain_parent counted.layers_distinct followed
    (counted.never_back standing isLayer noCircle)

end Tree

end VectorMotion.Scene
