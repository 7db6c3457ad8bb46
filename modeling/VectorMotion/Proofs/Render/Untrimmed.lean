import VectorMotion.Proofs.Geometry.Subpaths
import VectorMotion.Proofs.Render.Hiding
import VectorMotion.Proofs.Scalar.Exact
import VectorMotion.Proofs.Scalar.Rounded

/-!
# Calls without their trims

A trim over the whole path leaves every outline as it is. If all trims of a tree are such trims, of
the kind that treats all outlines together, then the calls that draw the tree are those that draw it
without any trim, but for the calls about trims, which come in between. The two trees are brought to
one time here, and drawn side by side.

Of the two kinds of numbers only little is used: what a whole window comes to as a part of another, that
it comes to everything from zero to one as fractions, and that small whole numbers are exact as outline
coordinates. Double precision has all of this, and so have exact numbers.
-/

namespace VectorMotion

/-- A zero of either sign. -/
def Scalar.IsZero {S : Type} [Scalar S] (x : S) : Prop := x = 0 ∨ x = -0

/-- A hundred percent of a hundred percent is a hundred percent, and none of it is none. -/
class Scalar.Percents (S : Type) [Scalar S] : Prop where
  start : ∀ {inner outer : S}, IsZero inner → IsZero outer →
    IsZero (outer + inner / 100 * (100 - outer))
  finish : ∀ {outer : S}, IsZero outer → outer + 100 / 100 * (100 - outer) = 100

/-- A conversion that loses nothing: whole numbers up to the digits of single precision are the same
after it, and so is a sign. -/
class Widen.Exact (S P : Type) [Scalar S] [Scalar P] [Widen S P] : Prop where
  natural : ∀ n ≤ 2 ^ 24, widen (Scalar.ofNat n : S) = (Scalar.ofNat n : P)
  opposite : ∀ x : S, widen (-x) = -(widen x : P)

/-- A hundredth of zero is zero, and a hundred of them are one, where fractions end. Zero and one can be
told apart as lengths. -/
class Scalar.Fractions (P : Type) [Scalar P] : Prop where
  start : ∀ {x : P}, IsZero x → IsZero (clamp (x / 100) 0 1)
  finish : clamp (100 / 100) 0 1 = (1 : P)
  apart : ∀ {x : P}, IsZero x →
    x ≤ 0 ∧ (1 : P) ≤ 1 ∧ ¬ 1 < x ∧ ¬ abs (1 - x) < Trim.negligible

instance : Widen.Exact Float Float := ⟨fun _ _ => rfl, fun _ => rfl⟩

instance : Scalar.Fractions Float where
  start := by
    rintro x (rfl | rfl) <;> unfold Scalar.IsZero <;> decide +kernel
  finish := by decide +kernel
  apart := by
    rintro x (rfl | rfl) <;> decide +kernel

instance : Scalar.Percents Float where
  start := by
    rintro inner outer (rfl | rfl) (rfl | rfl) <;> unfold Scalar.IsZero <;> decide +kernel
  finish := by
    rintro outer (rfl | rfl) <;> decide +kernel

instance : Scalar.Percents Float32 where
  start := by
    rintro inner outer (rfl | rfl) (rfl | rfl) <;> unfold Scalar.IsZero <;> decide +kernel
  finish := by
    rintro outer (rfl | rfl) <;> decide +kernel

namespace Exact

/-- There is one exact zero. -/
theorem is_zero (x : ℝ) : Scalar.IsZero x ↔ x = 0 := by
  have zero : @OfNat.ofNat ℝ 0 (Scalar.instOfNat 0) = (0 : ℝ) := Nat.cast_zero
  rw [Scalar.IsZero, zero, neg_zero, or_self]

instance : Scalar.Percents ℝ where
  start := by
    intro inner outer innerZero outerZero
    rw [is_zero] at innerZero outerZero ⊢
    rw [innerZero, outerZero]
    norm_num
  finish := by
    intro outer outerZero
    rw [is_zero] at outerZero
    rw [outerZero, numeral]
    norm_num

instance : Widen.Exact ℝ ℝ := ⟨fun _ _ => rfl, fun _ => rfl⟩

instance : Scalar.Fractions ℝ where
  start := by
    intro x zero
    rw [is_zero] at zero ⊢
    rw [zero, numeral, numeral, numeral]
    norm_num [Scalar.clamp]
  finish := by
    rw [numeral, numeral, numeral]
    norm_num [Scalar.clamp]
  apart := by
    intro x zero
    rw [is_zero] at zero
    have small : (Trim.negligible : ℝ) = (1 : ℕ) / 10 ^ 6 := rfl
    have apart : Scalar.abs ((1 : ℕ) - (0 : ℝ)) = |(1 : ℕ) - (0 : ℝ)| := rfl
    rw [zero, numeral, numeral, apart, small]
    norm_num

end Exact

/-! ## Whole windows -/

namespace Trim

/-- A window over the whole path, whatever its offset, of a trim that treats all outlines together. -/
structure Window.Whole {S : Type} [Scalar S] (window : Window S) : Prop where
  together : window.mode = .simultaneous
  start : Scalar.IsZero window.start
  finish : window.finish = 100

/-- All of every path is kept from zero to a hundred hundredths. -/
theorem paths_whole {P : Type} [Scalar P] [Measure P] [Scalar.Fractions P] (outlines : List (Path P))
    {start : P} (zero : Scalar.IsZero start) (offset : P) :
    paths outlines (start / 100) (100 / 100) offset = outlines := by
  obtain ⟨fromStart, toFinish, inOrder, wide⟩ :=
    Scalar.Fractions.apart (Scalar.Fractions.start zero)
  simp only [paths, Scalar.Fractions.finish, inOrder, wide, fromStart, toFinish, ↓reduceIte,
    decide_true, Bool.and_self]

namespace Window.Whole

variable {S : Type} [Scalar S]

/-- A whole window that is taken for a part of another is whole as well. -/
theorem within [Scalar.Percents S] {window outer : Window S} (whole : window.Whole)
    (outerWhole : outer.Whole) : (window.within outer).Whole := by
  refine ⟨whole.together, ?_, ?_⟩
  · rw [Window.within, outerWhole.finish]
    exact Scalar.Percents.start whole.start outerWhole.start
  · rw [Window.within, outerWhole.finish, whole.finish]
    exact Scalar.Percents.finish outerWhole.start

/-- A whole window keeps all of every outline. -/
theorem keeps {P : Type} [Scalar P] [Widen S P] [Measure P] [Widen.Exact S P] [Scalar.Fractions P]
    {window : Window S} (whole : window.Whole) (outlines : List (Path P)) :
    window.cutTogether outlines = outlines := by
  have zero : Scalar.IsZero (widen window.start : P) := by
    have nothing : (widen (0 : S) : P) = 0 := Widen.Exact.natural 0 (by decide)
    rcases whole.start with start | start
    · exact .inl (by rw [start, nothing])
    · exact .inr (by rw [start, Widen.Exact.opposite, nothing])
  have hundred : (widen (100 : S) : P) = 100 := Widen.Exact.natural 100 (by decide)
  rw [cutTogether, fraction, fraction, whole.finish, hundred]
  exact paths_whole outlines zero _

end Window.Whole

end Trim

namespace Scene

variable {S P : Type}

/-- A layer apart from the trim in force for its contents. -/
def Layer.untrimmed (layer : Layer S) : Layer S := { layer with trim := none }

/-- An entry of a layer apart from its trim. -/
def Parenting.untrimmed (entry : LayerEntry S) : LayerEntry S := (entry.1, entry.2.untrimmed)

/-- The layer that another one follows is the same apart from trims. -/
theorem Parenting.parent_untrimmed (layers : List (LayerEntry S)) (layer : Layer S) :
    parent? (layers.map untrimmed) layer.untrimmed = (parent? layers layer).map untrimmed := by
  have looked (test : LayerEntry S → Bool) (same : ∀ entry, test (untrimmed entry) = test entry) :
      (layers.map untrimmed).find? test = (layers.find? test).map untrimmed := by
    rw [List.find?_map]
    exact congrArg (fun test => (layers.find? test).map untrimmed) (funext same)
  have link : layer.untrimmed.link = layer.link := rfl
  have parent : layer.untrimmed.parentIndex = layer.parentIndex := rfl
  rw [parent?, parent?, link, parent]
  cases layer.link with
  | some known =>
    cases known with
    | none => rfl
    | some id => exact looked _ fun entry => rfl
  | none =>
    cases layer.parentIndex with
    | none => rfl
    | some index => exact looked _ fun entry => rfl

/-- Which layers a layer follows has nothing to do with trims. -/
theorem Parenting.chain_untrimmed (layers : List (LayerEntry S)) (start : Nat)
    (unvisited : List Nat) (layer : Layer S) :
    chainFrom (layers.map untrimmed) start unvisited layer.untrimmed =
      (chainFrom layers start unvisited layer).map untrimmed := by
  fun_induction chainFrom layers start unvisited layer with
  | case1 unvisited layer alone =>
    rw [chainFrom, parent_untrimmed, alone]
    rfl
  | case2 unvisited layer head next followed fresh inductionHypothesis =>
    rw [chainFrom, parent_untrimmed, followed]
    change (if _fresh : _ then _ else _) = _
    rw [dif_pos fresh, List.map_cons, ← inductionHypothesis]
    rfl
  | case3 unvisited layer head next followed visited =>
    rw [chainFrom, parent_untrimmed, followed]
    change (if _fresh : _ then _ else _) = _
    rw [dif_neg visited]
    rfl

/-- The trims of a tree, by their numbers. -/
def TrimsAre (ids : List Nat) (node : Node S P) : Prop :=
  ∀ listed ∈ node.listing, listed.id ∈ ids ↔ ∃ trim, listed.kind = .trim trim

/-- The trims of a tree are those of its effects and its children. -/
theorem TrimsAre.parts {ids : List Nat} {head : Head} {kind : Kind S P}
    {effects children : List (Node S P)} (trims : TrimsAre ids (.mk head kind effects children)) :
    (∀ effect ∈ effects, TrimsAre ids effect) ∧ ∀ child ∈ children, TrimsAre ids child :=
  (Node.forall_listing.mp trims).2

/-- Whether a node itself is a trim. -/
theorem TrimsAre.self {ids : List Nat} {node : Node S P} (trims : TrimsAre ids node) :
    node.id ∈ ids ↔ ∃ trim, node.kind = .trim trim :=
  trims node (Node.Way.here node).listed

variable [Scalar S]

/-- Nothing is trimmed, or everything by a whole window. -/
def AllWhole (trim : Option (Trim.Window S)) : Prop := ∀ window, trim = some window → window.Whole

/-- An absent trim leaves everything whole. -/
theorem AllWhole.none : AllWhole (none : Option (Trim.Window S)) := by
  intro window impossible
  cases impossible

/-- All trims of a tree that can be seen are whole. -/
def TrimsWhole (node : Node S P) : Prop :=
  ∀ path held, Node.Way node path held →
    (∀ passed ∈ path ++ [held], passed.head.hidden = false) →
    ∀ trim, held.kind = .trim trim → trim.window.Whole

/-- Below a node that is shown, all trims that can be seen are whole as well. -/
theorem TrimsWhole.parts {head : Head} {kind : Kind S P} {effects children : List (Node S P)}
    (whole : TrimsWhole (.mk head kind effects children)) (shown : head.hidden = false) :
    (∀ effect ∈ effects, TrimsWhole effect) ∧ ∀ child ∈ children, TrimsWhole child := by
  constructor
  · intro effect member path held way visible
    exact whole _ _ (.effect _ _ _ _ member way) (List.forall_mem_cons.mpr ⟨shown, visible⟩)
  · intro child member path held way visible
    exact whole _ _ (.child _ _ _ _ member way) (List.forall_mem_cons.mpr ⟨shown, visible⟩)

namespace Node

/-- Whole windows that meet leave a whole one. -/
theorem meet_all_whole [Scalar.Percents S] {around : Option (Trim.Window S)}
    {windows : List (Trim.Window S)} (aroundWhole : AllWhole around)
    (whole : ∀ window ∈ windows, window.Whole) : AllWhole (meetAll around windows) := by
  induction windows generalizing around with
  | nil => exact aroundWhole
  | cons window rest inductionHypothesis =>
    have own : window.Whole := whole window List.mem_cons_self
    refine inductionHypothesis (fun met same => ?_)
      fun other member => whole other (List.mem_cons_of_mem _ member)
    obtain rfl := Option.some.inj same
    cases around with
    | none => exact own
    | some current => exact (aroundWhole current rfl).within own

end Node

/-- A shape under whole trims has all of its outline. -/
theorem Shape.trimmed_whole [Scalar P] [Widen S P] [Measure P] {trim : Option (Trim.Window S)}
    (whole : AllWhole trim) (path : Path P) : Shape.trimmed trim path = path := by
  cases trim with
  | none => rfl
  | some window => simp [Shape.trimmed, Trim.Window.simultaneous, (whole window rfl).together]

/-- Once the trims have been taken out, no windows are left. -/
theorem TrimsAre.no_windows {ids : List Nat} {nodes : List (Node S P)} (trims : ∀ node ∈ nodes, TrimsAre ids node)
    (time : S) : Node.windowsAt time (Node.withoutAll ids nodes) = [] := by
  rw [Node.withoutAll_map]
  refine List.filterMap_eq_nil_iff.mpr fun node member => ?_
  obtain ⟨original, kept, rfl⟩ := List.mem_map.mp member
  obtain ⟨inside, other⟩ := List.mem_filter.mp kept
  have noTrim := mt (trims original inside).self.mpr (by simpa [Node.isOther] using other)
  obtain ⟨head, kind, effects, children⟩ := original
  cases kind with
  | trim trim => exact absurd ⟨trim, rfl⟩ noTrim
  | _ => rfl

section Update

variable [Scalar P] [Widen S P] [Measure P]

/-- The windows among some nodes are those that their trims hold at the time, where they are shown. -/
theorem Node.windows_held (nodes : List (Node S P)) (time : S) (around : Option (Trim.Window S))
    (window : Trim.Window S) (member : window ∈ windowsAt time nodes) :
    ∃ node ∈ nodes, (node.update time around).head.hidden = false ∧
      ∃ trim, (node.update time around).kind = .trim trim ∧ trim.window = window := by
  obtain ⟨node, inside, found⟩ := List.mem_filterMap.mp member
  refine ⟨node, inside, ?_⟩
  obtain ⟨head, kind, effects, children⟩ := node
  cases kind with
  | trim trim =>
    cases hidden : head.hidden with
    | true => simp [windowAt?, hidden] at found
    | false =>
      rw [update_leaf _ _ _ _ _ _ hidden rfl]
      exact ⟨hidden, trim.update time, rfl, by simpa [windowAt?, hidden] using found⟩
  | _ => cases found

/-- If all trims of a container at a time are whole, so are those of its effects and its children, and
the one in force for its children. -/
theorem Node.whole_inside [Scalar.Percents S] {head : Head} {kind : Kind S P}
    {effects children : List (Node S P)} {time : S} {around : Option (Trim.Window S)}
    (shown : head.hidden = false) (container : kind.isContainer = true)
    (aroundWhole : AllWhole around)
    (whole : TrimsWhole ((mk head kind effects children).update time around)) :
    let inner := kind.childTime time
    let trim := meetAll (kind.trimInside around) (windowsAt inner children)
    (∀ effect ∈ effects, TrimsWhole (effect.update inner none)) ∧
    (∀ child ∈ children, TrimsWhole (child.update inner trim)) ∧ AllWhole trim := by
  intro inner trim
  rw [update_container _ _ _ _ _ _ shown container] at whole
  obtain ⟨effectsWhole, childrenWhole⟩ := whole.parts shown
  refine ⟨fun effect member => effectsWhole _ (List.mem_map_of_mem member),
    fun child member => childrenWhole _ (List.mem_map_of_mem member),
    meet_all_whole ?_ fun window member => ?_⟩
  · cases kind with
    | group group => exact aroundWhole
    | _ => exact .none
  · obtain ⟨child, inside, visible, content, isTrim, rfl⟩ :=
      windows_held children inner trim window member
    exact childrenWhole _ (List.mem_map_of_mem inside) [] _ (.here _) (by simpa using visible)
      content isTrim

/-- Apart from its trim, a layer at a time is the same whatever it holds and whatever is around it. -/
theorem Node.update_layer_untrimmed (ids : List Nat) (node : Node S P) (time : S)
    (around other : Option (Trim.Window S)) :
    ((node.without ids).update time other).layer?.map Layer.untrimmed =
      (node.update time around).layer?.map Layer.untrimmed := by
  obtain ⟨head, kind, effects, children⟩ := node
  rw [without]
  cases hidden : head.hidden with
  | true =>
    rw [update_hidden _ _ _ _ _ _ hidden, update_hidden _ _ _ _ _ _ hidden]
    rfl
  | false =>
    cases container : kind.isContainer with
    | true =>
      rw [update_container _ _ _ _ _ _ hidden container,
        update_container _ _ _ _ _ _ hidden container]
      cases kind <;> rfl
    | false =>
      rw [update_leaf _ _ _ _ _ _ hidden container, update_leaf _ _ _ _ _ _ hidden container]
      cases kind <;> rfl

/-- Apart from trims, the layers among some nodes at a time are those among the nodes that are left
when others have been taken out which are no layers. -/
theorem Parenting.entries_untrimmed (ids : List Nat) (nodes : List (Node S P)) (time : S)
    (around other : Option (Trim.Window S))
    (noLayers : ∀ node ∈ nodes, node.id ∈ ids → node.layer? = none) :
    (entries ((Node.withoutAll ids nodes).map (Node.update time other))).map untrimmed =
      (entries (nodes.map (Node.update time around))).map untrimmed := by
  have gathered (trim : Option (Trim.Window S)) (list : List (Node S P)) :
      (entries (list.map (Node.update time trim))).map untrimmed = list.flatMap fun node =>
        (((node.update time trim).layer?.map Layer.untrimmed).map fun layer =>
          (node.head, layer)).toList := by
    rw [entries, List.map_filterMap, List.filterMap_map, List.filterMap_eq_flatMap_toList]
    refine List.flatMap_congr fun node _ => ?_
    simp only [Function.comp_apply, Option.map_map, Node.update_head]
    rfl
  rw [gathered, gathered]
  refine (Node.withoutAll_flatMap _ _ _ (fun node member chosen => ?_) fun node _ _ => ?_).trans
    (List.flatMap_congr fun node _ => ?_)
  · rw [Node.update_no_layer node time other (noLayers node member chosen)]
    rfl
  · rw [Node.update_layer_untrimmed ids node time other other]
    obtain ⟨head, kind, effects, children⟩ := node
    rfl
  · rw [← Node.update_layer_untrimmed ids node time other other,
      Node.update_layer_untrimmed ids node time around other]

end Update

end Scene

namespace Render.Call

open Scene

variable {S P : Type}

/-- The transforms that a layer follows have nothing to do with trims. -/
theorem parents_untrimmed (followed : List (LayerEntry S)) (head : Head) (content : Scene.Layer S) :
    (parents (followed.map Parenting.untrimmed) head content.untrimmed : List (Call S P)) =
      parents followed head content := by
  have numbers : (followed.map Parenting.untrimmed).map (fun entry => entry.1.id) =
      followed.map fun entry => entry.1.id := by
    rw [List.map_map]
    rfl
  rw [parents, parents, Parenting.chain, Parenting.chain, numbers, Parenting.chain_untrimmed,
    ← List.map_reverse, List.map_map]
  rfl

/-- Calls that draw something under whole trims, beside those that draw it under none. Each call of the
former is one of the latter, or is about trims alone. -/
inductive Freed [Scalar S] : List (Call S P) → List (Call S P) → Prop where
  | nothing : Freed [] []
  | sequence (first firstFreed second secondFreed : List (Call S P))
      (ofFirst : Freed first firstFreed) (ofSecond : Freed second secondFreed) :
      Freed (first ++ second) (firstFreed ++ secondFreed)
  | save : Freed [save] [save]
  | restore : Freed [restore] [restore]
  | saveTrimming : Freed [saveTrimming] [saveTrimming]
  | restoreTrimming : Freed [restoreTrimming] [restoreTrimming]
  | visit (head : Head) (told : Visit S P) (noShape : ∀ shape, told ≠ .shape shape)
      (noTrim : ∀ window, told ≠ .trim window) : Freed [visit head told] [visit head told]
  | shape (head : Head) (shape freed : Scene.Shape S P) (path : freed.path = shape.path)
      (single : shape.path.Single) : Freed [visit head (.shape shape)] [visit head (.shape freed)]
  | enter : Freed [setTrimming .simultaneous] []
  | trim (head : Head) (window : Trim.Window S) (whole : window.Whole) :
      Freed [visit head (.trim window)] []

namespace Freed

variable [Scalar S]

/-- A trim comes into force, and none where there are none. -/
theorem enterTrim {trim : Option (Trim.Window S)} (whole : AllWhole trim) :
    Freed (enterTrim trim : List (Call S P)) [] := by
  cases trim with
  | none => exact .nothing
  | some window =>
    rw [Call.enterTrim, (whole window rfl).together]
    exact .enter

/-- A trim is carried out, and none where there are none. -/
theorem applyTrim (head : Head) {trim : Option (Trim.Window S)} (whole : AllWhole trim) :
    Freed (applyTrim head trim : List (Call S P)) [] := by
  cases trim with
  | none => exact .nothing
  | some window =>
    rw [Call.applyTrim]
    split
    · exact .trim head window (whole window rfl)
    · exact .nothing

/-- Calls that are about neither shapes nor trims. -/
theorem same {calls : List (Call S P)} (quiet : ∀ call ∈ calls, ∃ head told,
    call = Call.visit head told ∧ (∀ shape, told ≠ .shape shape) ∧ ∀ window, told ≠ .trim window) :
    Freed calls calls := by
  induction calls with
  | nil => exact .nothing
  | cons call rest inductionHypothesis =>
    obtain ⟨head, told, rfl, noShape, noTrim⟩ := quiet call List.mem_cons_self
    exact .sequence [_] [_] rest rest (.visit head told noShape noTrim)
      (inductionHypothesis fun other member => quiet other (List.mem_cons_of_mem _ member))

/-- A group. -/
theorem group (head : Head) {trim : Option (Trim.Window S)} (whole : AllWhole trim)
    (owns ownsFreed : Bool) {inside insideFreed : List (Call S P)}
    (freed : Freed inside insideFreed) :
    Freed (Call.group head ⟨trim, owns⟩ inside) (Call.group head ⟨none, ownsFreed⟩ insideFreed) := by
  have own : Freed (if owns then Call.applyTrim head trim else [] : List (Call S P)) [] := by
    split
    · exact applyTrim head whole
    · exact .nothing
  have entered : Freed ([.visit head .group] : List (Call S P)) [.visit head .group] :=
    .visit head .group (by simp) (by simp)
  have all := Freed.save.sequence _ _ _ _ (Freed.saveTrimming.sequence _ _ _ _
    ((enterTrim whole).sequence _ _ _ _ (entered.sequence _ _ _ _ (freed.sequence _ _ _ _
      (own.sequence _ _ _ _ (Freed.restoreTrimming.sequence _ _ _ _ .restore))))))
  simpa [Call.group, Call.enterTrim, Call.applyTrim] using all

/-- A layer, which follows the same layers apart from their trims. -/
theorem layer {followed others : List (LayerEntry S)}
    (same : followed.map Parenting.untrimmed = others.map Parenting.untrimmed) (head : Head)
    (content : Scene.Layer S) (whole : AllWhole content.trim)
    {effects effectsFreed inside insideFreed : List (Call S P)} (ofEffects : Freed effects effectsFreed)
    (freed : Freed inside insideFreed) :
    Freed (Call.layer followed head content effects inside)
      (Call.layer others head content.untrimmed effectsFreed insideFreed) := by
  cases active : content.active with
  | false =>
    rw [layer_inactive _ _ _ _ _ active, layer_inactive others head content.untrimmed _ _ active]
    exact .nothing
  | true =>
    have sameParents : (parents others head content.untrimmed : List (Call S P)) =
        parents followed head content := by
      rw [← parents_untrimmed followed, same]
      exact (parents_untrimmed others head content.untrimmed).symm
    have parents : Freed (parents followed head content)
        (parents others head content.untrimmed : List (Call S P)) := by
      rw [sameParents]
      refine .same fun call member => ?_
      obtain ⟨owner, told, rfl, sets⟩ := parents_set _ _ _ _ member
      refine ⟨owner, told, rfl, ?_, ?_⟩ <;> rintro _ rfl <;> cases sets
    have shown : Freed ([.visit head (ofLayerKind content.kind),
        .visit head (.transform content.transform)] : List (Call S P)) [
        .visit head (ofLayerKind content.kind), .visit head (.transform content.transform)] := by
      refine .same fun call member => ?_
      rcases List.mem_pair.mp member with rfl | rfl
      · refine ⟨_, _, rfl, ?_, ?_⟩ <;> cases content.kind <;> simp [ofLayerKind]
      · exact ⟨_, _, rfl, by simp, by simp⟩
    have all := Freed.save.sequence _ _ _ _ (ofEffects.sequence _ _ _ _ (parents.sequence _ _ _ _
      (shown.sequence _ _ _ _ (Freed.saveTrimming.sequence _ _ _ _
        ((enterTrim whole).sequence _ _ _ _ (freed.sequence _ _ _ _
          ((applyTrim head whole).sequence _ _ _ _
            (Freed.restoreTrimming.sequence _ _ _ _ .restore))))))))
    have activeFreed : content.untrimmed.active = true := active
    simpa [Call.layer, active, activeFreed, Layer.untrimmed, Call.enterTrim, Call.applyTrim] using all

end Freed

section Update

variable [Scalar S] [Scalar P] [Widen S P] [Measure P]

/-- A trim gives no calls of its own. -/
theorem of_trim (followed : List (LayerEntry S)) {node : Node S P} (time : S)
    (around : Option (Trim.Window S)) (isTrim : ∃ trim, node.kind = .trim trim) :
    ofNode followed (node.update time around) = [] := by
  obtain ⟨head, kind, effects, children⟩ := node
  obtain ⟨trim, rfl⟩ := isTrim
  cases hidden : head.hidden with
  | true => rw [Node.update_hidden _ _ _ _ _ _ hidden, of_hidden _ _ _ _ _ hidden]
  | false =>
    rw [Node.update_leaf _ _ _ _ _ _ hidden rfl, of_leaf _ _ _ _ _ hidden rfl]
    rfl

/-- A node that is neither a container nor a trim is drawn under whole trims as it is under none. -/
theorem leaf_freed (head : Head) {kind : Kind S P} (plain : kind.isContainer = false)
    (noTrim : ∀ trim, kind ≠ .trim trim) (time : S) {around : Option (Trim.Window S)}
    (aroundWhole : AllWhole around) :
    Freed (leaf head (kind.updateLeaf time around)) (leaf head (kind.updateLeaf time none)) := by
  cases kind with
  | shape shape =>
    refine .shape head _ _ (Shape.trimmed_whole aroundWhole _).symm ?_
    change (Shape.trimmed around _).Single
    rw [Shape.trimmed_whole aroundWhole]
    exact Path.untrimmed_single _ _
  | trim trim => exact absurd rfl (noTrim trim)
  | transform _ | fill _ | gradient _ | stroke _ | repeater _ | flood _ =>
    exact .visit head _ (by simp) (by simp)
  | slider _ => exact .nothing
  | root | layer _ | group _ | effectGroup => cases plain

/-- Nodes among which the trims have been taken out are drawn one by one as the others. -/
theorem nodes_freed {ids : List Nat} {nodes : List (Node S P)}
    (trims : ∀ node ∈ nodes, TrimsAre ids node) (time : S) (around : Option (Trim.Window S))
    (followed others : List (LayerEntry S))
    (freed : ∀ node ∈ nodes, node.id ∉ ids →
      Freed (ofNode followed (node.update time around))
        (ofNode others ((node.without ids).update time none))) :
    Freed (ofNodes followed (nodes.map (Node.update time around)))
      (ofNodes others ((Node.withoutAll ids nodes).map (Node.update time none))) := by
  induction nodes with
  | nil => exact .nothing
  | cons node rest inductionHypothesis =>
    have below := inductionHypothesis
      (fun other member => trims other (List.mem_cons_of_mem _ member))
      fun other member => freed other (List.mem_cons_of_mem _ member)
    by_cases chosen : node.id ∈ ids
    · have isTrim := (trims node List.mem_cons_self).self.mp chosen
      simpa [ofNodes, Node.withoutAll, chosen, of_trim followed time around isTrim] using below
    · rw [Node.withoutAll, if_neg chosen]
      exact .sequence _ _ _ _ (freed node List.mem_cons_self chosen) below

/-- A tree at a time, in which all trims are whole, is drawn as it is without them. -/
theorem update_freed [Scalar.Percents S] (ids : List Nat) (node : Node S P)
    (trims : TrimsAre ids node) (other : node.id ∉ ids) (time : S)
    (around : Option (Trim.Window S)) (aroundWhole : AllWhole around)
    (whole : TrimsWhole (node.update time around)) (followed others : List (LayerEntry S))
    (same : followed.map Parenting.untrimmed = others.map Parenting.untrimmed) :
    Freed (ofNode followed (node.update time around))
      (ofNode others ((node.without ids).update time none)) := by
  induction node generalizing time around with
  | mk head kind effects children effectsFreed childrenFreed =>
    obtain ⟨effectsTrims, childrenTrims⟩ := trims.parts
    rw [Node.without]
    cases hidden : head.hidden with
    | true =>
      rw [Node.update_hidden _ _ _ _ _ _ hidden, Node.update_hidden _ _ _ _ _ _ hidden,
        of_hidden _ _ _ _ _ hidden, of_hidden _ _ _ _ _ hidden]
      exact .nothing
    | false =>
      cases container : kind.isContainer with
      | false =>
        have still (around : Option (Trim.Window S)) :
            (kind.updateLeaf time around).isContainer = false := by
          cases kind <;> first | rfl | cases container
        rw [Node.update_leaf _ _ _ _ _ _ hidden container,
          Node.update_leaf _ _ _ _ _ _ hidden container, of_leaf _ _ _ _ _ hidden (still _),
          of_leaf _ _ _ _ _ hidden (still _)]
        exact leaf_freed head container (fun trim same => other (trims.self.mpr ⟨trim, same⟩)) time
          aroundWhole
      | true =>
        obtain ⟨effectsWhole, childrenWhole, trimWhole⟩ :=
          Node.whole_inside hidden container aroundWhole whole
        have noneInside : Node.meetAll (kind.trimInside none) ([] : List (Trim.Window S)) = none := by
          cases kind <;> rfl
        rw [Node.update_container _ _ _ _ _ _ hidden container,
          Node.update_container _ _ _ _ _ _ hidden container, TrimsAre.no_windows childrenTrims]
        dsimp only
        rw [noneInside]
        generalize Node.meetAll (kind.trimInside around) _ = trim at trimWhole childrenWhole ⊢
        generalize kind.childTime time = inner at effectsWhole childrenWhole ⊢
        have effectsAlike := nodes_freed effectsTrims inner none followed others
          fun effect member apart => effectsFreed effect member (effectsTrims effect member) apart
            inner none .none (effectsWhole effect member)
        have childrenAlike := nodes_freed childrenTrims inner trim followed others
          fun child member apart => childrenFreed child member (childrenTrims child member) apart
            inner trim trimWhole (childrenWhole child member)
        cases kind with
        | root =>
          have all := Freed.save.sequence _ _ _ _ (childrenAlike.sequence _ _ _ _ .restore)
          simpa [ofNode, hidden, Kind.updateContainer] using all
        | layer content =>
          simp only [ofNode, hidden, Kind.updateContainer, Bool.false_eq_true, ↓reduceIte]
          exact Freed.layer same head _ trimWhole effectsAlike childrenAlike
        | group content =>
          simp only [ofNode, hidden, Kind.updateContainer, Bool.false_eq_true, ↓reduceIte]
          exact Freed.group head trimWhole _ _ childrenAlike
        | effectGroup =>
          simpa only [ofNode, hidden, Kind.updateContainer, Bool.false_eq_true, ↓reduceIte]
            using childrenAlike
        | _ => cases container

/-- A scene at a frame in which all trims that can be seen are whole is drawn as it is when all trims
are hidden. -/
theorem scene_freed [Scalar.Percents S] {settings : Trim.Settings} {document : Document S}
    {scene : Scene S P} (reachable : Reachable settings document scene) (frame : S)
    (trims : List Nat) (all : TrimsAre trims scene.tree.root)
    (whole : TrimsWhole (scene.update frame).tree.root) :
    Freed (scene.update frame).calls
      ({ scene with tree := scene.tree.hide trims }.update frame).calls := by
  have notRoot : scene.tree.root.id ∉ trims := by
    intro chosen
    obtain ⟨trim, isTrim⟩ := all.self.mp chosen
    have fits := reachable.fits
    generalize scene.tree.root = root at fits isTrim
    cases fits
    cases isTrim
  have noLayers : ∀ node ∈ scene.tree.root.listing, node.id ∈ trims → node.layer? = none := by
    intro node listed chosen
    obtain ⟨trim, isTrim⟩ := (all node listed).mp chosen
    rw [Node.layer?, isTrim]
    rfl
  have gone : ({ scene with tree := scene.tree.hide trims }.update frame).calls =
      ofRoot ((scene.tree.root.without trims).update frame none) :=
    of_concealed ((scene.tree.hide_conceals trims notRoot noLayers).update frame none)
  rw [gone]
  refine update_freed trims scene.tree.root all notRoot frame none .none whole _ _ ?_
  have fits := reachable.fits
  have noChildLayers : ∀ child ∈ scene.tree.root.children, child.id ∈ trims → child.layer? = none :=
    fun child member => noLayers child
      (Node.Way.child _ _ _ _ member (.here child)).listed
  change (Parenting.entries (scene.tree.root.update frame none).children).map _ = _
  generalize scene.tree.root = root at fits noChildLayers
  cases fits with
  | root head layers visible layersFit =>
    rw [Node.without, Node.update_container _ _ _ _ _ _ visible rfl,
      Node.update_container _ _ _ _ _ _ visible rfl]
    exact (Parenting.entries_untrimmed trims layers _ _ _ noChildLayers).symm

end Update

end Render.Call

end VectorMotion
