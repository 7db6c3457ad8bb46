import Mathlib.Algebra.Ring.Parity
import VectorMotion.Proofs.Scene.Reference
import VectorMotion.Proofs.Scene.Table

/-!
# Where matte sources are drawn

The layers of a document are drawn in reverse, and neighbours change places where the one that would
be drawn later is a matte source, so that a matte source comes in front of the layer that it clips.
Nothing else changes the order: layers that are no matte sources are drawn in reverse.

A layer that has changed places takes no further part. Where matte sources follow one another, every
second one finds its target already gone to the front, and stays behind it. The layers of a run are
counted from its end, so whether a matte source gets in front of its target is a question of how many
matte sources stand between it and the end of the run.
-/

namespace VectorMotion.Scene

open Json

variable {S P : Type}

namespace Build

/-- How many matte sources one after another the layers of a document begin with, each with a layer
behind it. -/
def matteRun (layers : List (Node S P)) : Nat := (layers.dropLast.takeWhile isMatteSource).length

/-- A run that reaches past the last two layers of which the first is a matte source, has reached the
one before them too, so that it has become longer by two, or it is as long as without them. -/
theorem run_parity (layers : List (Node S P)) (first source last : Node S P)
    (isSource : isMatteSource source = true) :
    Even (matteRun (layers ++ [first, source, last])) ↔ Even (matteRun (layers ++ [first])) := by
  have whole : (layers ++ [first, source, last]).dropLast = layers ++ [first, source] := by
    rw [List.append_cons, List.append_cons, List.dropLast_concat]
    simp
  rw [matteRun, matteRun, whole, List.dropLast_concat]
  clear whole
  induction layers with
  | nil =>
    cases firstSource : isMatteSource first
    · simp [firstSource]
    · simp [firstSource, isSource]
  | cons layer rest inductionHypothesis =>
    cases layerSource : isMatteSource layer
    · simp [layerSource]
    · simp only [List.cons_append, List.takeWhile_cons, layerSource, ↓reduceIte, List.length_cons,
        Nat.even_add_one, inductionHypothesis]

/-- A run does not reach past a layer that is no matte source. -/
theorem run_stops (layers : List (Node S P)) (other last : Node S P)
    (noSource : isMatteSource other = false) :
    matteRun (layers ++ [other, last]) = matteRun (layers ++ [other]) := by
  rw [matteRun, matteRun, List.append_cons, List.dropLast_concat, List.dropLast_concat]
  induction layers with
  | nil => simp [noSource]
  | cons layer rest inductionHypothesis =>
    cases layerSource : isMatteSource layer <;> simp_all

/-- Layers that are no matte sources keep their order. -/
theorem mattes_first_unmatted (layers : List (Node S P)) :
    (mattesFirst layers).filter (!isMatteSource ·) = layers.filter (!isMatteSource ·) := by
  induction layers using mattesFirst.induct with
  | case1 layer source rest isSource inductionHypothesis =>
    rw [mattesFirst, if_pos isSource]
    simp [isSource, List.filter_cons, inductionHypothesis]
  | case2 layer other rest noSource inductionHypothesis =>
    rw [mattesFirst, if_neg noSource]
    simp only [List.filter_cons, inductionHypothesis]
  | case3 layers short => rw [mattesFirst]; exact short

/-- Two neighbours in the order of drawing, the later of which is a matte source: it gets directly in
front of the other if a run of even length stands between the other and the end, and stays behind it
if the length is odd. -/
theorem neighbours_drawn (before behind : List (Node S P)) (target source : Node S P)
    (isSource : isMatteSource source = true) :
    let drawn := mattesFirst (before ++ target :: source :: behind)
    let run := matteRun (target :: before.reverse)
    (Even run → [source, target] <:+: drawn) ∧ (¬Even run → [target, source].Sublist drawn) := by
  simp only
  induction before using mattesFirst.induct with
  | case1 layer next rest nextSource inductionHypothesis =>
    obtain ⟨front, stays⟩ := inductionHypothesis
    have same : Even (matteRun (target :: (layer :: next :: rest).reverse)) ↔
        Even (matteRun (target :: rest.reverse)) := by
      obtain ⟨init, last, shape⟩ : ∃ init last, target :: rest.reverse = init ++ [last] :=
        ⟨_, _, (List.dropLast_concat_getLast (List.cons_ne_nil target rest.reverse)).symm⟩
      have longer : target :: (layer :: next :: rest).reverse = init ++ [last, next, layer] := by
        rw [List.reverse_cons, List.reverse_cons, ← List.cons_append, ← List.cons_append, shape]
        simp
      rw [longer, shape, run_parity _ _ _ _ nextSource]
    rw [same, List.cons_append, List.cons_append, mattesFirst, if_pos nextSource]
    exact ⟨fun even => ((front even).trans (List.suffix_cons ..).isInfix).trans
        (List.suffix_cons ..).isInfix,
      fun odd => ((stays odd).cons _).cons _⟩
  | case2 layer next rest noSource inductionHypothesis =>
    obtain ⟨front, stays⟩ := inductionHypothesis
    have same : matteRun (target :: (layer :: next :: rest).reverse) =
        matteRun (target :: (next :: rest).reverse) := by
      simpa using run_stops (target :: rest.reverse) next layer (by simpa using noSource)
    rw [same, List.cons_append, List.cons_append, mattesFirst, if_neg noSource]
    exact ⟨fun even => (front even).trans (List.suffix_cons ..).isInfix,
      fun odd => (stays odd).cons _⟩
  | case3 before short =>
    have swapped : mattesFirst (target :: source :: behind) =
        source :: target :: mattesFirst behind := by rw [mattesFirst, if_pos isSource]
    cases before with
    | nil =>
      rw [List.nil_append, swapped]
      refine ⟨fun _ => (List.prefix_append [source, target] _).isInfix, fun odd => ?_⟩
      simp [matteRun] at odd
    | cons layer rest =>
      cases rest with
      | cons second rest => exact (short layer second rest rfl).elim
      | nil =>
        cases targetSource : isMatteSource target
        · rw [List.cons_append, List.nil_append, mattesFirst, if_neg (by simp [targetSource]),
            swapped]
          refine ⟨fun _ => ⟨[layer], mattesFirst behind, rfl⟩, fun odd => ?_⟩
          simp [matteRun, targetSource] at odd
        · -- The target has gone in front of the layer, so the source is left behind both.
          rw [List.cons_append, List.nil_append, mattesFirst, if_pos targetSource]
          refine ⟨fun even => ?_, fun _ => ?_⟩
          · simp [matteRun, targetSource] at even
          · have later : source ∈ mattesFirst (source :: behind) :=
              (mem_mattes_first ..).mpr List.mem_cons_self
            exact ((List.singleton_sublist.mpr later).cons layer).cons_cons target

variable [Scalar S]

/-- What a fragment says of the layer that is made from it, if one is. -/
def described? (workshop : Workshop S) (fragment : Value) :
    Option (Document.Label × Document.Layer S) := do
  let label ← read? Document.Label.decode fragment
  let authored ← read? Document.Layer.decode fragment
  let _ ← LayerKind.ofDocument workshop.assets authored
  return (label, authored)

/-- A layer with a label, which is a matte source if it has been described as one. -/
def AsDescribed (description : Document.Label × Document.Layer S) (layer : Node S P) : Prop :=
  layer.head = Head.ofLabel layer.id description.1 ∧
    isMatteSource layer = description.2.matteSource

/-- A layer is made from a fragment just in case the fragment describes one. -/
theorem layer_head_described (workshop : Workshop S) (fragment : Value) (next : Nat) :
    Option.Rel AsDescribed (described? workshop fragment)
      ((layerHead workshop fragment next : Option (Node S P × Nat)).map Prod.fst) := by
  rw [described?, layerHead]
  cases read? Document.Label.decode fragment with
  | none => exact .none
  | some label =>
    cases read? (V := Document.Layer S) Document.Layer.decode fragment with
    | none => exact .none
    | some authored =>
      cases kind : LayerKind.ofDocument workshop.assets authored with
      | none => simp [kind]
      | some kind => simpa [kind] using Option.Rel.some ⟨rfl, rfl⟩

/-- The first round makes one layer for each fragment that describes one, in the same order. -/
theorem layer_heads_described (workshop : Workshop S) (fragments : List Value) (next : Nat) :
    List.Forall₂ (fun description entry => AsDescribed description entry.1)
      (fragments.filterMap (described? workshop))
      (layerHeads workshop fragments next : List (Node S P × Value) × Nat).1 := by
  induction fragments generalizing next with
  | nil => exact .nil
  | cons fragment rest inductionHypothesis =>
    have made := layer_head_described (P := P) workshop fragment next
    rw [layerHeads, List.filterMap_cons]
    cases description : described? workshop fragment <;>
      cases built : (layerHead workshop fragment next : Option (Node S P × Nat)) <;>
      rw [description, built] at made
    · exact inductionHypothesis next
    · cases made
    · cases made
    · cases made with
      | some described => exact .cons described (inductionHypothesis _)

variable [Scalar P] [Widen S P]

/-- A layer stays as it has been described when it is filled in. -/
theorem fill_layer_described (workshop : Workshop S) (layer : Node S P) (fragment : Value)
    (next : Nat) (description : Document.Label × Document.Layer S)
    (described : AsDescribed description layer) :
    AsDescribed description (fillLayer workshop layer fragment next).1 := by
  unfold fillLayer
  split
  · exact described
  · refine ⟨?_, (matte_source_filled ..).trans described.2⟩
    obtain ⟨head, kind, effects, children⟩ := layer
    exact described.1

/-- The layers of a document with their contents, in the order of the document. -/
def layers (workshop : Workshop S) (fragments : List Value) : List (Node S P) :=
  let heads := layerHeads workshop fragments 1
  (fillLayers workshop [] heads.1 heads.2).1

/-- There is one layer for each fragment that describes one, in the same order. -/
theorem layers_described (workshop : Workshop S) (fragments : List Value) :
    List.Forall₂ AsDescribed (fragments.filterMap (described? workshop))
      (layers workshop fragments : List (Node S P)) := by
  let heads := (layerHeads workshop fragments 1 : List (Node S P × Value) × Nat)
  obtain ⟨filled, entries⟩ := fill_layers_stages workshop heads.1 [] heads.2
  have described := layer_heads_described (P := P) workshop fragments 1
  rw [← entries, List.forall₂_map_right_iff] at described
  rw [layers, filled, List.nil_append, List.forall₂_map_right_iff]
  exact described.imp fun description stage here =>
    fill_layer_described workshop stage.layer _ stage.next description here

end Build

/-- Of two elements of a list without repetitions, one stands before the other and not behind it. -/
theorem one_order {α : Type} {list : List α} (distinct : list.Nodup) {first second : α}
    (before : [first, second].Sublist list) : ¬[second, first].Sublist list := by
  induction list with
  | nil => nomatch before
  | cons head rest inductionHypothesis =>
    obtain ⟨fresh, distinct⟩ := List.nodup_cons.mp distinct
    intro after
    cases before with
    | cons _ before =>
      cases after with
      | cons _ after => exact inductionHypothesis distinct before after
      | cons_cons _ after => exact fresh (before.subset (by simp))
    | cons_cons _ before =>
      cases after with
      | cons _ after => exact fresh (after.subset (by simp))
      | cons_cons _ after => exact fresh (before.subset (by simp))

section Documents

variable [Scalar S] [Scalar P] [Widen S P]

/-- The layers of a document are those that its fragments describe, and all of them are drawn, each
once. Those that are no matte sources are drawn in reverse order. A matte source with a layer behind
it gets directly in front of that layer, if it is drawn before it at all; and that is so just in case
the matte sources that follow it one after another, each with a layer behind it, are even in number.
So it is when the layer that it clips is no matte source. -/
theorem mattes_drawn (settings : Trim.Settings) (document : Document S) :
    let workshop : Workshop S := ⟨settings, document.assets⟩
    let built : List (Node S P) := Build.layers workshop document.layers
    let drawn := (Tree.ofDocument settings document : Tree S P).root.children
    List.Forall₂ Build.AsDescribed (document.layers.filterMap (Build.described? workshop)) built ∧
      drawn.Perm built ∧ (drawn.map Node.id).Nodup ∧
      drawn.filter (!Build.isMatteSource ·) =
        (built.filter (!Build.isMatteSource ·)).reverse ∧
      ∀ place, (inside : place + 1 < built.length) → Build.isMatteSource built[place] = true →
        ([built[place], built[place + 1]].Sublist drawn ↔
          Even (Build.matteRun (built.drop (place + 1)))) ∧
        ([built[place], built[place + 1]].Sublist drawn →
          [built[place], built[place + 1]] <:+: drawn) := by
  intro workshop built drawn
  have distinct : (drawn.map Node.id).Nodup := by
    let made := (Build.document workshop document.layers : Node S P × Nat)
    have numbered : Numbered 0 [made.1] made.2 := Build.document_numbered workshop document.layers
    have taken : made.1.numbers.Nodup := by
      simpa using numbered.taken.all.nodup_iff.mpr List.nodup_range'
    exact taken.sublist made.1.parts_sublist
  refine ⟨Build.layers_described workshop document.layers,
    (Build.mattes_first_perm _).trans (List.reverse_perm _), distinct, ?_, ?_⟩
  · rw [← List.filter_reverse]
    exact Build.mattes_first_unmatted built.reverse
  · intro place inside isSource
    have split : built.reverse = (built.drop (place + 2)).reverse ++
        built[place + 1] :: built[place] :: (built.take place).reverse := by
      have whole : built.take place ++ built[place] :: built[place + 1] :: built.drop (place + 2) =
          built := by
        rw [← List.drop_eq_getElem_cons, ← List.drop_eq_getElem_cons, List.take_append_drop]
      conv_lhs => rw [← whole]
      simp
    have run : built[place + 1] :: (built.drop (place + 2)).reverse.reverse =
        built.drop (place + 1) := by
      rw [List.reverse_reverse, ← List.drop_eq_getElem_cons]
    obtain ⟨front, stays⟩ := Build.neighbours_drawn (built.drop (place + 2)).reverse
      (built.take place).reverse built[place + 1] built[place] isSource
    rw [run, ← split] at front stays
    have decided : [built[place], built[place + 1]].Sublist drawn →
        Even (Build.matteRun (built.drop (place + 1))) := by
      intro before
      by_contra odd
      exact one_order (List.Nodup.of_map _ distinct) before (stays odd)
    exact ⟨⟨decided, fun even => (front even).sublist⟩, fun before => front (decided before)⟩

end Documents

/-- Three layers, each of which clips the one behind it. -/
def clippedTwice : Document Float32 :=
  let layer (name : String) (marks : List (String × Value)) : Value :=
    .object ([("nm", .text name), ("op", .natural 60)] ++ marks ++ [("ty", .natural 4)])
  { frameRate := 30
    inPoint := 0
    outPoint := 60
    layers := [layer "First" [("td", .natural 1)],
      layer "Second" [("td", .natural 1), ("tt", .natural 1)], layer "Third" [("tt", .natural 1)]] }

/-- The second of the three gets directly in front of the third. -/
theorem second_before_third :
    let built : List (Node Float32 Float) := Build.layers {} clippedTwice.layers
    let drawn := (Tree.ofDocument {} clippedTwice : Tree Float32 Float).root.children
    ∃ inside : 1 + 1 < built.length, Build.isMatteSource built[1] = true ∧
      Build.matteRun (built.drop 2) = 0 ∧ [built[1], built[1 + 1]] <:+: drawn := by
  intro built drawn
  have inside : 1 + 1 < built.length := by decide +kernel
  have isSource : Build.isMatteSource built[1] = true := by decide +kernel +revert
  have run : Build.matteRun (built.drop 2) = 0 := by decide +kernel
  obtain ⟨-, -, -, -, places⟩ := mattes_drawn (P := Float) {} clippedTwice
  obtain ⟨decided, directly⟩ := places 1 inside isSource
  exact ⟨inside, isSource, run, directly (decided.mpr (run ▸ Even.zero))⟩

/-- The first of the three is a matte source too, and is drawn behind the second. -/
theorem first_behind_second :
    let built : List (Node Float32 Float) := Build.layers {} clippedTwice.layers
    let drawn := (Tree.ofDocument {} clippedTwice : Tree Float32 Float).root.children
    drawn.map Node.name = ["Second", "Third", "First"] ∧
      ∃ inside : 0 + 1 < built.length, Build.isMatteSource built[0] = true ∧
        ¬[built[0], built[0 + 1]].Sublist drawn := by
  intro built drawn
  have inside : 0 + 1 < built.length := by decide +kernel
  have never : ¬[built[0].name, built[0 + 1].name].Sublist (drawn.map Node.name) := by
    decide +kernel +revert
  exact ⟨by decide +kernel, inside, by decide +kernel +revert,
    fun before => never (before.map Node.name)⟩

end VectorMotion.Scene
