import Mathlib.Algebra.Order.Group.Multiset
import Mathlib.Data.List.Perm.Basic
import VectorMotion.Proofs.Geometry.Subpaths
import VectorMotion.Proofs.Render.Ledger

/-!
# What is filled

A drawing may put an outline in its own coordinates and say with a map where they lie, or put the
outline where it belongs. A shape that waits for a trim is painted in the second way, and any other
shape in the first. Two fills are compared here as the document shows them: by their outlines there, and
by their looks.

What a paint says in coordinates is not moved along with the outline. A gradient stays where it is, so it
lies differently on a shape that has waited, unless the map that places the shape leaves the points of
the gradient alone.

Looks are compared with care. What waits is put together by a comparison of numbers, and a number that
compares as equal to another need not be the same. Strokes are left out; their widths and dashes are
scaled.
-/

namespace VectorMotion

/-- The same, or not told apart by a comparison of numbers. -/
def Indistinct {A : Type} [BEq A] (first second : A) : Prop :=
  first = second ∨ (first == second) = true

/-- Lists that are not told apart are not told apart one by one. -/
theorem Indistinct.forall {A : Type} [BEq A] {first second : List A}
    (indistinct : Indistinct first second) : List.Forall₂ Indistinct first second := by
  rcases indistinct with rfl | same
  · exact List.forall₂_same.mpr fun _ _ => .inl rfl
  · induction first generalizing second with
    | nil =>
      cases second with
      | nil => exact .nil
      | cons => cases same
    | cons head rest inductionHypothesis =>
      cases second with
      | nil => cases same
      | cons other others =>
        simp only [List.cons_beq_cons, Bool.and_eq_true] at same
        exact .cons (.inr same.1) (inductionHypothesis same.2)

/-- The points that say where a gradient lies. -/
def Scene.GradientFill.points {S : Type} [Scalar S] (gradient : Scene.GradientFill S) :
    List (Vec2 S) :=
  [gradient.start.value, gradient.finish.value, gradient.focus]

namespace Render

open Scene

variable {S P : Type}

/-! ## Looks -/

/-- Whether a paint fills an outline. -/
def Paint.isFill : Paint S → Bool
  | .fill .. | .gradient .. => true
  | .stroke .. => false

section Looks

variable [Scalar S]

/-- Paints that are not told apart fill both or neither. -/
theorem Paint.indistinct_fill {first second : Paint S} (indistinct : Indistinct first second) :
    first.isFill = second.isFill := by
  rcases indistinct with rfl | same
  · rfl
  · cases first <;> cases second <;> first | rfl | cases same

/-- A paint that fills is the same in the coordinates of the document. -/
theorem Paint.scaled_fill (factor : S) (paint : Paint S) (fills : paint.isFill = true) :
    paint.scaled factor = paint := by
  cases paint with
  | stroke => cases fills
  | _ => rfl

/-- A scaled paint is a fill exactly if the paint is. -/
theorem Paint.scaled_is_fill (factor : S) (paint : Paint S) :
    (paint.scaled factor).isFill = paint.isFill := by
  cases paint <;> rfl

/-- Shapes that wait and look alike have the same opacity, paints and cover. -/
theorem Queued.Alike.parts {first second : Queued S P} (alike : first.Alike second) :
    Indistinct first.opacity second.opacity ∧ Indistinct first.paints second.paints ∧
      Indistinct first.cover second.cover := by
  rcases alike with ⟨opacity, paints, cover⟩ | ⟨opacity, paints, cover⟩
  · exact ⟨.inl opacity, .inl paints, .inl cover⟩
  · exact ⟨.inr opacity, .inr paints, .inr cover⟩

end Looks

/-! ## Fills -/

/-- A shape that is filled once. -/
structure Filling (S P : Type) where
  outline : Path P
  placed : Affine P
  opacity : S
  paint : Paint S
  cover : Option (Rgba S)

/-- The shapes that an element fills. If shapes have been merged into one outline, it is taken apart:
each of them is one subpath. -/
def Element.fillings : Element S P → List (Filling S P)
  | outline path placed opacity paint cover =>
    if paint.isFill then path.subpaths.map fun part => ⟨part, placed, opacity, paint, cover⟩ else []
  | picture .. => []

/-- An outline that is one subpath is filled as it is. -/
theorem Element.fillings_single {path : Path P} (single : path.Single) (outlined : path ≠ [])
    (placed : Affine P) (opacity : S) (paint : Paint S) (cover : Option (Rgba S)) :
    fillings (.outline path placed opacity paint cover) =
      if paint.isFill then [⟨path, placed, opacity, paint, cover⟩] else [] := by
  rw [fillings, single.subpaths outlined]
  rfl

/-- The shapes that a drawing fills, in no order. -/
def Canvas.fillings (canvas : Canvas S P) : Multiset (Filling S P) :=
  Multiset.ofList (canvas.elements.flatMap Element.fillings)

variable [Scalar P]

/-- The shapes that will be filled if all of what waits is left. -/
def Queued.fillings (queued : Queued S P) : List (Filling S P) :=
  (queued.paint queued.path).flatMap Element.fillings

/-- What waits is filled in each of its paints. -/
theorem Queued.fillings_paints (queued : Queued S P) : queued.fillings =
    queued.paints.flatMap fun paint => Element.fillings
      (.outline queued.path Affine.identity queued.opacity paint queued.cover) := by
  rw [fillings, paint]
  split
  case isTrue empty =>
    rw [List.isEmpty_iff] at empty
    simp [empty, Element.fillings, Path.subpaths]
  case isFalse => rw [List.flatMap_map]

variable [Scalar S]

/-- A shape that goes into the queue is filled in its own look or in one that is alike, whether it
waits alone or as a part of the last outline. -/
theorem Queued.enqueue_fillings (mark : Nat) (queue : List (Queued S P)) (shape : Queued S P)
    (starts : Path.startsWithMove shape.path = true) :
    ∃ look : Queued S P, look.path = shape.path ∧ look.Alike shape ∧
      ((enqueue mark queue shape).flatMap fillings).Perm
        (queue.flatMap fillings ++ look.fillings) := by
  have alone : ((queue ++ [shape]).flatMap fillings).Perm
      (queue.flatMap fillings ++ shape.fillings) := by simp
  unfold enqueue
  split
  case h_1 last found =>
    split
    case isTrue joins =>
      rw [Bool.and_eq_true] at joins
      refine ⟨{ last with path := shape.path }, rfl, Queued.alike_of_same_look joins.2, ?_⟩
      obtain ⟨front, rfl⟩ : ∃ front, queue = front ++ [last] :=
        List.getLast?_eq_some_iff.mp found
      rw [List.dropLast_concat, List.flatMap_append, List.flatMap_append, List.append_assoc]
      refine List.Perm.append_left _ ?_
      simp only [List.flatMap_singleton, fillings_paints]
      refine List.Perm.trans ?_ (List.flatMap_append_perm last.paints _ _).symm
      refine List.Perm.of_eq (List.flatMap_congr fun paint _ => ?_)
      -- the new outline begins with a move, so it can be taken apart from what it has joined
      simp only [Element.fillings, Path.subpaths_append _ _ starts, List.map_append]
      split <;> rfl
    case isFalse => exact ⟨shape, rfl, .inl ⟨rfl, rfl, rfl⟩, alone⟩
  case h_2 => exact ⟨shape, rfl, .inl ⟨rfl, rfl, rfl⟩, alone⟩

/-! ## Fills in the document -/

/-- The same outline filled in the same look, as far as the outline goes: in the same coordinates, or
in those of the document. -/
structure Filling.Same (free trimmed : Filling S P) : Prop where
  outline : (trimmed.outline = free.outline ∧ trimmed.placed = free.placed) ∨
    (trimmed.outline = free.outline.place free.placed ∧ trimmed.placed = Affine.identity)
  opacity : Indistinct trimmed.opacity free.opacity
  paint : Indistinct trimmed.paint free.paint
  cover : Indistinct trimmed.cover free.cover

variable [Widen S P]

/-- Where a point lies in the document. A map that does nothing is not written. -/
def documentPoint (placed : Affine P) (point : Vec2 S) : Vec2 P :=
  if placed == Affine.identity then point.toPoint else placed.apply point.toPoint

/-- If a fill is a gradient, it lies in the same place in another one. -/
def Filling.Lands (used : List (GradientFill S)) (free trimmed : Filling S P) : Prop :=
  ∀ index opacity rule, free.paint = .gradient index opacity rule →
    ∀ gradient, used[index]? = some gradient → ∀ point ∈ gradient.points,
      documentPoint trimmed.placed point = documentPoint free.placed point

/-- The same fill in the document. That a gradient lies in the same place is said under a condition. -/
def Filling.Agrees (condition : Prop) (used : List (GradientFill S)) (free trimmed : Filling S P) :
    Prop :=
  free.Same trimmed ∧ (condition → free.Lands used trimmed)

/-- A map that leaves the gradients among some paints where they are. -/
def LeavesGradients (used : List (GradientFill S)) (paints : List (Paint S)) (placed : Affine P) :
    Prop :=
  ∀ index opacity rule, .gradient index opacity rule ∈ paints →
    ∀ gradient, used[index]? = some gradient → ∀ point ∈ gradient.points,
      documentPoint placed point = (documentPoint Affine.identity point : Vec2 P)

/-- What leaves the gradients of some paints leaves those of fewer paints too. -/
theorem LeavesGradients.among {used : List (GradientFill S)} {paints some : List (Paint S)}
    {placed : Affine P} (leaves : LeavesGradients used paints placed) (among : some ⊆ paints) :
    LeavesGradients used some placed :=
  fun index opacity rule member => leaves index opacity rule (among member)

variable {condition : Prop} {used : List (GradientFill S)}

/-- A fill agrees with itself. -/
theorem Filling.Agrees.same (filling : Filling S P) : filling.Agrees condition used filling :=
  ⟨⟨.inl ⟨rfl, rfl⟩, .inl rfl, .inl rfl, .inl rfl⟩, fun _ _ _ _ _ _ _ _ _ => rfl⟩

/-- A shape filled in its own coordinates, and where it belongs. -/
theorem Element.placed_agrees {path : Path P} (single : path.Single) (outlined : path ≠ [])
    (placed : Affine P) (factor : S) {opacity lookOpacity : S} {paint lookPaint : Paint S}
    {cover lookCover : Option (Rgba S)} (sameOpacity : Indistinct lookOpacity opacity)
    (samePaint : Indistinct lookPaint (paint.scaled factor))
    (sameCover : Indistinct lookCover cover)
    (leaves : condition → LeavesGradients used [paint] placed) :
    Multiset.Rel (Filling.Agrees condition used)
      (Multiset.ofList (fillings (.outline path placed opacity paint cover)))
      (Multiset.ofList
        (fillings (.outline (path.place placed) Affine.identity lookOpacity lookPaint lookCover))) := by
  have sameFill := (Paint.indistinct_fill samePaint).trans (Paint.scaled_is_fill factor paint)
  rw [fillings_single single outlined,
    fillings_single (single.place placed) (Path.place_outlined outlined placed), sameFill]
  split
  case isFalse => exact .zero
  case isTrue fills =>
    rw [Paint.scaled_fill factor paint fills] at samePaint
    refine .cons ⟨⟨.inr ⟨rfl, rfl⟩, sameOpacity, samePaint, sameCover⟩, ?_⟩ .zero
    rintro holds index opacity rule rfl gradient found point member
    exact (leaves holds index opacity rule List.mem_cons_self gradient found point member).symm

/-- One copy of a shape is filled as it is, or in the coordinates of the document in a look that is
alike. -/
theorem Queued.copy_agrees {path : Path P} (single : path.Single) (outlined : path ≠ [])
    (placed : Affine P) (opacity factor : S) (paints : List (Paint S)) (cover : Option (Rgba S))
    (leaves : condition → LeavesGradients used paints placed) (look : Queued S P)
    (outline : look.path = path.place placed)
    (alike : look.Alike ⟨path.place placed, opacity, paints.map (Paint.scaled factor), cover⟩) :
    Multiset.Rel (Filling.Agrees condition used)
      (Multiset.ofList (paints.flatMap fun paint =>
        Element.fillings (.outline path placed opacity paint cover)))
      (Multiset.ofList look.fillings) := by
  obtain ⟨sameOpacity, samePaints, sameCover⟩ := alike.parts
  have each := samePaints.forall
  rw [fillings_paints, outline]
  generalize look.paints = looks at each
  clear samePaints alike
  dsimp only at each sameOpacity sameCover
  induction paints generalizing looks with
  | nil =>
    cases each
    exact .zero
  | cons paint rest inductionHypothesis =>
    obtain ⟨first, others, samePaint, remaining, rfl⟩ := List.forall₂_cons_right_iff.mp each
    have here : condition → LeavesGradients used [paint] placed :=
      fun holds => (leaves holds).among (by simp)
    have behind : condition → LeavesGradients used rest placed :=
      fun holds => (leaves holds).among (by simp)
    rw [List.flatMap_cons, List.flatMap_cons, ← Multiset.coe_add, ← Multiset.coe_add]
    exact (Element.placed_agrees single outlined placed factor sameOpacity samePaint sameCover
      here).add (inductionHypothesis behind others remaining)

/-- All copies of a shape that waits are filled as those of one that does not. -/
theorem Brush.queued_agrees (brush : Brush S P) {path : Path P} (single : path.Single)
    (outlined : path ≠ [])
    (leaves : condition → ∀ copy ∈ brush.instances,
      LeavesGradients used brush.paints (brush.placed * copy.1))
    (mark : Nat) (queue : List (Queued S P)) (free painted : Multiset (Filling S P))
    (agree : Multiset.Rel (Filling.Agrees condition used) free
      (painted + Multiset.ofList (queue.flatMap Queued.fillings))) :
    Multiset.Rel (Filling.Agrees condition used)
      (free + Multiset.ofList ((brush.paint path).flatMap Element.fillings))
      (painted + Multiset.ofList (((brush.queued path).foldl (Queued.enqueue mark) queue).flatMap
        Queued.fillings)) := by
  unfold paint queued
  generalize brush.instances = copies at leaves
  induction copies generalizing queue free with
  | nil => simpa using agree
  | cons copy rest inductionHypothesis =>
    let placed := brush.placed * copy.1
    let factor : S := Brush.lengthFactor placed
    obtain ⟨look, outline, alike, waits⟩ := Queued.enqueue_fillings mark queue
      ⟨path.place placed, brush.opacity * copy.2, brush.paints.map (Paint.scaled factor), brush.cover⟩
      ((single.place placed).starts (Path.place_outlined outlined placed))
    have first := Queued.copy_agrees single outlined placed (brush.opacity * copy.2) factor
      brush.paints brush.cover (fun holds => leaves holds copy List.mem_cons_self) look outline alike
    have after := agree.add first
    rw [add_assoc, Multiset.coe_add, ← Multiset.coe_eq_coe.mpr waits] at after
    have next := inductionHypothesis _ _ after
      fun holds other member => leaves holds other (List.mem_cons_of_mem _ member)
    simpa [List.flatMap_map, add_assoc] using next

end Render

end VectorMotion
