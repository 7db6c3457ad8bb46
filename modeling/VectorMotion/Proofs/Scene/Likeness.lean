import Mathlib.Data.List.Forall2
import VectorMotion.Proofs.Scene.Descent
import VectorMotion.Report

/-!
# Nodes that are alike

Two trees have the same nodes if they have the same shape and the nodes at the same place have the
same head and are of the same kind. The kind of a node is told by its word in a report. What the
nodes hold besides, their tracks above all, may differ.

Putting children in the order of drawing and matte sources in front of what they clip keeps nodes
alike, for it asks for no more than kinds, and for layers whether they are matte sources.
-/

namespace VectorMotion.Scene

variable {S P : Type}

/-- Two nodes with the same heads and kinds, and with nodes below them of which the same holds. What
else is known about them may differ. -/
inductive Node.Like : Node S P → Node S P → Prop where
  | mk (head : Head) {first second : Kind S P} {effects others children contents : List (Node S P)}
      (word : Report.kindWord first = Report.kindWord second)
      (alikeEffects : List.Forall₂ Like effects others)
      (alikeChildren : List.Forall₂ Like children contents) :
      Like (.mk head first effects children) (.mk head second others contents)

/-- Whether a kind is that of a group. -/
def Kind.isGroup : Kind S P → Bool
  | group _ => true
  | _ => false

/-- Whether a kind is that of a group of effects. -/
def Kind.isEffectGroup : Kind S P → Bool
  | effectGroup => true
  | _ => false

/-- The word for a kind tells whether it is that of a transform, of a group or of a group of
effects. -/
theorem Kind.same_word {first second : Kind S P}
    (word : Report.kindWord first = Report.kindWord second) :
    first.isTransform = second.isTransform ∧ first.isGroup = second.isGroup ∧
      first.isEffectGroup = second.isEffectGroup := by
  have told (kind : Kind S P) :
      kind.isTransform = (Report.kindWord kind == "ShapeTransform") ∧
        kind.isGroup = (Report.kindWord kind == "Group") ∧
        kind.isEffectGroup = (Report.kindWord kind == "EffectGroup") := by
    cases kind with
    | shape shape =>
      obtain ⟨contour, _⟩ := shape
      cases contour <;>
        simp [isTransform, isGroup, isEffectGroup, Report.kindWord, Report.contourWord]
    | _ => simp [isTransform, isGroup, isEffectGroup, Report.kindWord]
  obtain ⟨transform, group, effects⟩ := told first
  obtain ⟨otherTransform, otherGroup, otherEffects⟩ := told second
  exact ⟨by rw [transform, otherTransform, word], by rw [group, otherGroup, word],
    by rw [effects, otherEffects, word]⟩

/-- Nodes that are alike have the same word in a report. -/
theorem Node.Like.word {first second : Node S P} (like : first.Like second) :
    Report.kindWord first.kind = Report.kindWord second.kind := by
  cases like with
  | mk head word => exact word

/-- The head of a node and the word for its kind. -/
def Node.label (node : Node S P) : Head × String := (node.head, Report.kindWord node.kind)

/-- Nodes that are alike list the same heads and kinds in the same order. -/
theorem Node.Like.listed {first second : Node S P} (like : first.Like second) :
    first.listing.map label = second.listing.map label := by
  induction first generalizing second with
  | mk head kind effects children effectsListed childrenListed =>
    have all {nodes others : List (Node S P)} (alike : List.Forall₂ Like nodes others)
        (each : ∀ node ∈ nodes, ∀ {other}, Like node other →
          node.listing.map label = other.listing.map label) :
        (nodes.flatMap listing).map label = (others.flatMap listing).map label := by
      induction alike with
      | nil => rfl
      | cons here _ inductionHypothesis =>
        obtain ⟨first, rest⟩ := List.forall_mem_cons.mp each
        rw [List.flatMap_cons, List.flatMap_cons, List.map_append, List.map_append, first here,
          inductionHypothesis rest]
    cases like with
    | @mk _ _ other _ others _ contents word alikeEffects alikeChildren =>
      have own : (Node.mk head kind effects children).label =
          (Node.mk head other others contents).label := congrArg (Prod.mk head) word
      rw [listing, listing, listingAll_flatMap, listingAll_flatMap, listingAll_flatMap,
        listingAll_flatMap, List.map_cons, List.map_cons, List.map_append, List.map_append,
        all alikeEffects effectsListed, all alikeChildren childrenListed, own]

/-- Children that are alike stand in the same order. -/
theorem arranged_alike {children others : List (Node S P)}
    (alike : List.Forall₂ Node.Like children others) :
    List.Forall₂ Node.Like (arranged children) (arranged others) := by
  have reversed := List.rel_reverse alike
  have same {first second : Node S P} (like : first.Like second) :
      first.kind.isTransform = second.kind.isTransform := (Kind.same_word like.word).1
  refine List.rel_append (List.rel_filter ?_ reversed) (List.rel_filter ?_ reversed)
  · intro first second like
    simp only [same like]
  · intro first second like
    simp only [same like]

namespace Build

/-- Two nodes that are alike, and the same number after them. -/
def MadeAlike (first second : Node S P × Nat) : Prop := first.1.Like second.1 ∧ first.2 = second.2

/-- Nodes that are alike, and the same number after them. -/
def AllAlike (first second : List (Node S P) × Nat) : Prop :=
  List.Forall₂ Node.Like first.1 second.1 ∧ first.2 = second.2

/-- Layers that are alike, and matte sources alike. -/
def LayersAlike (first second : Node S P) : Prop :=
  first.Like second ∧ isMatteSource first = isMatteSource second

/-- Matte sources are moved alike. -/
theorem mattes_first_alike {layers others : List (Node S P)}
    (alike : List.Forall₂ LayersAlike layers others) :
    List.Forall₂ LayersAlike (mattesFirst layers) (mattesFirst others) := by
  induction layers using mattesFirst.induct generalizing others with
  | case1 layer next rest isSource inductionHypothesis =>
    obtain _ | ⟨first, _ | ⟨second, behind⟩⟩ := alike
    rw [mattesFirst, mattesFirst, if_pos isSource, if_pos (second.2 ▸ isSource)]
    exact .cons second (.cons first (inductionHypothesis behind))
  | case2 layer next rest noSource inductionHypothesis =>
    obtain _ | ⟨first, _ | ⟨second, behind⟩⟩ := alike
    rw [mattesFirst, mattesFirst, if_neg noSource, if_neg (second.2 ▸ noSource)]
    exact .cons first (inductionHypothesis (.cons second behind))
  | case3 layers short =>
    obtain _ | ⟨first, _ | ⟨second, behind⟩⟩ := alike
    · exact .nil
    · exact .cons first .nil
    · exact absurd rfl (short _ _ _)

end Build

end VectorMotion.Scene
