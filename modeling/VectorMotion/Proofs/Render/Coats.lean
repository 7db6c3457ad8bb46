import Mathlib.Tactic.SplitIfs
import VectorMotion.Proofs.Render.Ledger

/-!
# Coats of paint

The elements of a drawing come in coats: what one shape shows at once, an image, or what a trim has
left of one outline that has waited, each with all its paints. A ledger knows which calls have drawn
what a coat shows, and which call has painted it. The coats of all calls, one behind the other, are
the elements of the drawing.
-/

namespace VectorMotion.Render

open Scene

variable {S P : Type}

/-- The outline of an element. An image has none. -/
def Element.path? : Element S P → Option (Path P)
  | .outline path .. => some path
  | .picture .. => none

/-- What is painted in one go: an outline with all its paints, or an image. -/
structure Coat (S P : Type) where
  /-- The number of the call that has painted it. -/
  call : Nat
  /-- The numbers of the calls that have drawn what it shows. -/
  drawn : List Nat
  elements : List (Element S P)

variable [Scalar S] [Scalar P] [Widen S P] [Measure P]

/-- What a call paints. A trim paints what it takes from the queue, each outline with what it leaves
of it. -/
def Ledger.coats (ledger : Ledger S P) : Call S P → List (Coat S P)
  | .visit _ (.shape shape) =>
    if shape.path.isEmpty || ledger.canvas.trimming.current == .simultaneous then []
    else [⟨ledger.count, [ledger.count], ledger.canvas.brush.paint shape.path⟩]
  | .visit _ (.transform transform) =>
    let inside := (ledger.canvas.brush.within transform.map).faded transform.opacity
    ledger.canvas.picture.toList.map fun picture =>
      ⟨ledger.count, [ledger.count], [.picture picture inside.placed inside.opacity]⟩
  | .visit _ (.trim window) =>
    let own := ledger.waiting.drop ledger.canvas.brush.mark
    let left := window.cutTogether (own.map fun pile => pile.shown.path)
    List.zipWith
      (fun pile left => ⟨ledger.count, pile.made.map Deposit.call, pile.shown.paint left⟩) own left
  | _ => []

/-- What calls paint, in the order of painting. -/
def Ledger.coatsAll (ledger : Ledger S P) : List (Call S P) → List (Coat S P)
  | [] => []
  | call :: rest => ledger.coats call ++ (ledger.answer call).coatsAll rest

/-- What a drawing of calls has painted, in the order of painting. -/
def Coat.ofCalls (calls : List (Call S P)) : List (Coat S P) := Ledger.empty.coatsAll calls

/-- A canvas paints what its ledger says that a call paints. -/
theorem Ledger.answer_elements (ledger : Ledger S P) (call : Call S P)
    (mirrored : ledger.waiting.map Pile.shown = ledger.canvas.queue) :
    (ledger.canvas.answer call).elements =
      ledger.canvas.elements ++ (ledger.coats call).flatMap Coat.elements := by
  cases call with
  | visit head visit =>
    cases visit with
    | shape shape =>
      simp only [Canvas.answer, Canvas.visit, Canvas.draw, coats, Bool.or_eq_true]
      by_cases outlined : shape.path.isEmpty = true
      · simp [outlined]
      · by_cases together : (ledger.canvas.trimming.current == .simultaneous) = true
        · simp [outlined, together]
        · simp [outlined, together]
    | transform transform =>
      simp only [Canvas.answer, Canvas.visit, Canvas.placePicture, Canvas.mapBrush, coats]
      cases ledger.canvas.picture <;> simp
    | trim window =>
      have own : ledger.canvas.queue.drop ledger.canvas.brush.mark =
          (ledger.waiting.drop ledger.canvas.brush.mark).map Pile.shown := by
        rw [List.map_drop, mirrored]
      have paths (piles : List (Pile S P)) :
          (piles.map Pile.shown).map Queued.path = piles.map fun pile => pile.shown.path := by
        rw [List.map_map]
        rfl
      have painted (piles : List (Pile S P)) (left : List (Path P)) :
          (List.zipWith Queued.paint (piles.map Pile.shown) left).flatten =
            (List.zipWith (fun pile left => (⟨ledger.count, pile.made.map Deposit.call,
              pile.shown.paint left⟩ : Coat S P)) piles left).flatMap Coat.elements := by
        rw [List.zipWith_map_left, List.flatMap_def, List.map_zipWith]
      simp only [Canvas.answer, Canvas.visit, Canvas.applyTrim, coats, own, paths, painted]
    | _ => simp [Canvas.answer, Canvas.visit, Canvas.mapBrush, coats]
  | restore =>
    simp only [Canvas.answer, coats]
    split <;> simp
  | _ => simp [Canvas.answer, coats]

/-- A call paints behind what has been painted, and takes nothing of it away. -/
theorem Canvas.answer_behind (canvas : Canvas S P) (call : Call S P) :
    canvas.elements <+: (canvas.answer call).elements := by
  let ledger : Ledger S P :=
    { canvas, count := 0, waiting := canvas.queue.map fun shape => ⟨shape, []⟩, clearings := [] }
  have mirrored : ledger.waiting.map Pile.shown = ledger.canvas.queue := by
    simp [ledger, Function.comp_def]
  rw [show canvas.answer call = ledger.canvas.answer call from rfl,
    ledger.answer_elements call mirrored]
  exact List.prefix_append _ _

/-- What the first of some calls have painted stays, and the others paint behind it. -/
theorem Canvas.elements_prefix (calls : List (Call S P)) (number : Nat) :
    (ofCalls (calls.take number)).elements <+: (ofCalls calls).elements := by
  have later (canvas : Canvas S P) (rest : List (Call S P)) :
      canvas.elements <+: (canvas.answerAll rest).elements := by
    induction rest generalizing canvas with
    | nil => exact List.prefix_rfl
    | cons call rest inductionHypothesis =>
      exact (canvas.answer_behind call).trans (inductionHypothesis (canvas.answer call))
  have whole : ofCalls calls = (ofCalls (calls.take number)).answerAll (calls.drop number) := by
    rw [ofCalls, ofCalls, answerAll, answerAll, answerAll, ← List.foldl_append,
      List.take_append_drop]
  rw [whole]
  exact later _ _

/-- The coats of one more call come behind the others. -/
theorem Ledger.coats_concat (ledger : Ledger S P) (calls : List (Call S P)) (call : Call S P) :
    ledger.coatsAll (calls ++ [call]) =
      ledger.coatsAll calls ++ (ledger.answerAll calls).coats call := by
  induction calls generalizing ledger with
  | nil => simp [coatsAll, answerAll]
  | cons first rest inductionHypothesis =>
    rw [List.cons_append, coatsAll, inductionHypothesis, coatsAll, List.append_assoc]
    rfl

/-- What a window keeps of some paths has a place for each of them. -/
theorem cut_all_length (spans : List (P × P)) (base : P) (segments : List (List (Trim.Measured P))) :
    (Trim.cutAll spans base segments).length = segments.length := by
  induction segments generalizing base with
  | nil => rfl
  | cons first rest inductionHypothesis => simp [Trim.cutAll, inductionHypothesis]

/-- Cutting outlines together gives one outline for each of them. -/
theorem cut_together_length (window : Trim.Window S) (outlines : List (Path P)) :
    (window.cutTogether outlines).length = outlines.length := by
  simp only [Trim.Window.cutTogether, Trim.paths]
  split_ifs <;> simp [cut_all_length]

/-- A trim paints all that it takes. -/
theorem Ledger.coats_taken (ledger : Ledger S P) (head : Head) (window : Trim.Window S)
    (pile : Pile S P) (taken : pile ∈ ledger.waiting.drop ledger.canvas.brush.mark)
    (deposit : Deposit S P) (made : deposit ∈ pile.made) :
    ∃ coat ∈ ledger.coats (.visit head (.trim window)), deposit.call ∈ coat.drawn := by
  simp only [coats]
  generalize ledger.waiting.drop ledger.canvas.brush.mark = own at taken ⊢
  have length := cut_together_length window (own.map fun pile => pile.shown.path)
  obtain ⟨place, bound, rfl⟩ := List.mem_iff_getElem.mp taken
  rw [List.length_map] at length
  refine ⟨_, List.mem_iff_getElem.mpr ⟨place, ?_, rfl⟩, ?_⟩
  · rw [List.length_zipWith, length, Nat.min_self]
    exact bound
  · rw [List.getElem_zipWith]
    exact List.mem_map_of_mem made

/-- All elements of a coat show the same outline, or the same image. -/
theorem Ledger.coats_outline (ledger : Ledger S P) (calls : List (Call S P)) :
    ∀ coat ∈ ledger.coatsAll calls, ∃ outline, ∀ element ∈ coat.elements,
      element.path? = outline := by
  induction calls generalizing ledger with
  | nil => simp [coatsAll]
  | cons call rest inductionHypothesis =>
    intro coat member
    rcases List.mem_append.mp member with here | later
    · cases call with
      | visit head visit =>
        cases visit with
        | shape shape =>
          simp only [coats] at here
          split at here
          · simp at here
          · obtain rfl := List.mem_singleton.mp here
            refine ⟨some shape.path, fun element painted => ?_⟩
            simp only [Brush.paint, List.mem_flatMap, List.mem_map] at painted
            obtain ⟨_, -, _, -, rfl⟩ := painted
            rfl
        | transform transform =>
          obtain ⟨picture, -, rfl⟩ := List.mem_map.mp here
          exact ⟨none, by simp [Element.path?]⟩
        | trim window =>
          obtain ⟨place, found⟩ := List.mem_iff_getElem?.mp here
          obtain ⟨pile, left, -, -, rfl⟩ := List.getElem?_zipWith_eq_some.mp found
          refine ⟨some left, fun element painted => ?_⟩
          simp only [Queued.paint] at painted
          split at painted
          · simp at painted
          · obtain ⟨paint, -, rfl⟩ := List.mem_map.mp painted
            rfl
        | _ => simp [coats] at here
      | _ => simp [coats] at here
    · exact inductionHypothesis _ coat later

end VectorMotion.Render
