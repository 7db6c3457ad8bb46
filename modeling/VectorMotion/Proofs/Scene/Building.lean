import VectorMotion.Proofs.Scene.Structure

/-!
# Building gives scenes

Every node that is built from a document stands where it may, and what it derives is coherent before
it has ever been brought to a time. The proofs follow the two rounds of building: effects and layer
heads first, then contents from fragments whose expressions have been replaced. Nothing is assumed
of the fragments.
-/

namespace VectorMotion.Scene.Build

open Json

variable {S P : Type}

/-- Putting children in the order of drawing loses none and adds none. -/
theorem mem_arranged (children : List (Node S P)) (node : Node S P) :
    node ∈ arranged children ↔ node ∈ children := by
  cases transform : node.kind.isTransform <;> simp [arranged, transform]

/-- Moving matte sources loses no layer and adds none. -/
theorem mem_mattes_first (layers : List (Node S P)) (node : Node S P) :
    node ∈ mattesFirst layers ↔ node ∈ layers := by
  induction layers using mattesFirst.induct with
  | case1 layer source rest isSource inductionHypothesis =>
    simp only [mattesFirst, isSource, ↓reduceIte, List.mem_cons, inductionHypothesis]
    exact or_left_comm
  | case2 layer other rest noSource inductionHypothesis =>
    rw [mattesFirst, if_neg noSource, List.mem_cons, inductionHypothesis, ← List.mem_cons]
  | case3 layers short => rw [mattesFirst]; exact short

/-- A layer that has been filled in clips the layer behind it just in case it did before. -/
theorem matte_source_filled (node : Node S P) (transform : Transform S)
    (children : List (Node S P)) :
    isMatteSource ((node.mapKind (setTransform transform)).withChildren children) =
      isMatteSource node := by
  obtain ⟨head, kind, effects, _⟩ := node
  cases kind <;> rfl

variable [Scalar S]

/-- A known kind of effect is a group of effects or a control. -/
theorem effect_kind_stands (effect : Document.Effect) (kind : Kind S P)
    (known : effectKind effect = some kind) : kind = .effectGroup ∨ kind.isControl = true := by
  unfold effectKind at known
  split at known
  case h_2 => exact .inl (Option.some.inj known).symm
  case h_4 => exact absurd known (by simp)
  all_goals
    obtain rfl := Option.some.inj known
    exact .inr rfl

variable [Scalar P] [Widen S P]

/-- The kind of a shape is that of its tag. -/
theorem head_kind (settings : Trim.Settings) (fragment : Value) (id : Nat) (head : Head)
    (kind : Kind S P) (readable : shapeHead settings fragment id = some (head, kind)) :
    ∃ tag, kindOf settings head.name tag fragment = some kind := by
  simp only [shapeHead, Option.bind_eq_bind, Option.bind_eq_some_iff, Option.pure_def,
    Option.some.injEq, Prod.mk.injEq] at readable
  obtain ⟨_, -, tag, -, label, -, kind, known, rfl, rfl⟩ := readable
  exact ⟨tag, known⟩

variable [Measure P]

/-- A shape of a document is a group or plain, and a plain one is coherent. -/
theorem kind_stands (settings : Trim.Settings) (name tag : String) (fragment : Value)
    (kind : Kind S P) (known : kindOf settings name tag fragment = some kind) :
    (∃ group, kind = .group group) ∨ kind.isPlain = true ∧ kind.Coherent := by
  have shape (contour : Contour S) (direction : Nat) :
      (Kind.shape (Shape.ofContour contour direction) : Kind S P).Coherent := rfl
  unfold kindOf at known
  split at known
  case h_1 =>
    obtain rfl := Option.some.inj known
    exact .inl ⟨_, rfl⟩
  case h_12 => exact absurd known (by simp)
  all_goals
    obtain ⟨authored, -, rfl⟩ := Option.map_eq_some_iff.mp known
    refine .inr ⟨rfl, ?_⟩
  all_goals trivial

/-- Shapes are contents, also those in groups at any depth. -/
theorem contents_fit (settings : Trim.Settings) :
    (∀ fragment next (node : Node S P) after,
      shape settings fragment next = some (node, after) → node.Fits .content) ∧
    (∀ members next, ∀ node ∈ (groupItems settings members next : List (Node S P) × Nat).1,
      node.Fits .content) ∧
    (∀ items next, ∀ node ∈ (shapes settings items next : List (Node S P) × Nat).1,
      node.Fits .content) := by
  apply Build.shape.mutual_induct (S := S) (P := P) settings
  case case1 =>
    intro members next unreadable node after built
    simp [shape, unreadable] at built
  case case2 =>
    intro members next head group readable children last items childrenFit node after built
    rw [items] at childrenFit
    simp only [shape, readable, items, Option.some.injEq, Prod.mk.injEq] at built
    obtain ⟨rfl, -⟩ := built
    exact .group _ _ _ fun child member => childrenFit child ((mem_arranged ..).mp member)
  case case3 =>
    intro members next head kind noGroup readable node after built
    obtain ⟨tag, known⟩ := head_kind settings _ next head kind readable
    simp only [shape, readable, Option.some.injEq, Prod.mk.injEq] at built
    obtain ⟨rfl, -⟩ := built
    rcases kind_stands settings head.name tag _ kind known with ⟨group, rfl⟩ | ⟨plain, coherent⟩
    · exact absurd rfl (noGroup group)
    · exact .plain _ _ plain coherent
  case case4 =>
    intro fragment next noObject node after built
    cases fragment with
    | object members => exact absurd rfl (noObject members)
    | _ => simp [shape] at built
  case case5 =>
    intro next node member
    simp [shapes] at member
  case case6 =>
    intro item rest next first after built others last same firstFits restFit node member
    rw [same] at restFit
    simp only [shapes, built, same, List.mem_cons] at member
    rcases member with rfl | member
    · exact firstFits _ _ built
    · exact restFit node member
  case case7 =>
    intro item rest next unreadable _ restFit node member
    simp only [shapes, unreadable] at member
    exact restFit node member
  case case8 =>
    intro next node member
    simp [groupItems] at member
  case case9 =>
    intro name items rest next isItems itemsFit node member
    simp only [groupItems, isItems, ↓reduceIte] at member
    exact itemsFit node member
  case case10 =>
    intro name items rest next noItems restFit node member
    simp only [groupItems, noItems, Bool.false_eq_true, ↓reduceIte] at member
    exact restFit node member
  case case11 =>
    intro first rest next noList restFit node member
    obtain ⟨name, value⟩ := first
    cases value with
    | list items => exact absurd rfl (noList name items)
    | _ =>
      simp only [groupItems] at member
      exact restFit node member

/-- Effects of a document are effects, also those in groups at any depth. -/
theorem effects_fit :
    (∀ authored next (node : Node S P) after,
      effect authored next = some (node, after) → node.Fits .effect) ∧
    (∀ authored next, ∀ node ∈ (effects authored next : List (Node S P) × Nat).1,
      node.Fits .effect) := by
  apply Build.effect.mutual_induct (S := S) (P := P)
  case case1 =>
    intro code name matchName parts value next authored unknown node after built
    simp [effect, unknown, authored] at built
  case case2 =>
    intro code name matchName parts value next authored isGroup children last same partsFit node
      after built
    rw [same] at partsFit
    simp only [effect, isGroup, same, authored, Option.some.injEq, Prod.mk.injEq] at built
    obtain ⟨rfl, -⟩ := built
    exact .effectGroup _ _ partsFit
  case case3 =>
    intro code name matchName parts value next authored kind noGroup known node after built
    simp only [effect, known, authored, Option.some.injEq, Prod.mk.injEq] at built
    obtain ⟨rfl, -⟩ := built
    rcases effect_kind_stands authored kind known with isGroup | control
    · exact absurd isGroup noGroup
    · exact .control _ _ control
  case case4 =>
    intro next node member
    simp [effects] at member
  case case5 =>
    intro item rest next first after built others last same firstFits restFit node member
    rw [same] at restFit
    simp only [effects, built, same, List.mem_cons] at member
    rcases member with rfl | member
    · exact firstFits _ _ built
    · exact restFit node member
  case case6 =>
    intro item rest next unknown _ restFit node member
    simp only [effects, unknown] at member
    exact restFit node member

/-- The first round makes layers with their effects and nothing else. -/
theorem layer_head_fits (workshop : Workshop S) (fragment : Value) (next after : Nat)
    (node : Node S P) (built : layerHead workshop fragment next = some (node, after)) :
    node.Fits .layer := by
  simp only [layerHead, Option.bind_eq_bind, Option.bind_eq_some_iff, Option.pure_def,
    Option.some.injEq, Prod.mk.injEq] at built
  obtain ⟨label, -, authored, -, kind, -, rfl, -⟩ := built
  exact .layer _ _ _ _ (fun effect member => effects_fit.2 _ _ effect member) (by simp)

/-- The second round leaves a layer a layer, whatever its fragment has become. -/
theorem fill_layer_fits (workshop : Workshop S) (layer : Node S P) (fragment : Value)
    (next : Nat) (fits : layer.Fits .layer) :
    (fillLayer workshop layer fragment next).1.Fits .layer := by
  unfold fillLayer
  split
  · exact fits
  · rename_i authored _
    cases fits with
    | layer head content effects children effectsFit childrenFit =>
      exact .layer _ _ _ _ effectsFit fun child member =>
        (contents_fit workshop.settings).2.2 authored.shapes next child
          ((mem_arranged ..).mp member)

/-- All layers of the first round fit. -/
theorem layer_heads_fit (workshop : Workshop S) (layers : List Value) (next : Nat) :
    ∀ entry ∈ (layerHeads workshop layers next : List (Node S P × Value) × Nat).1,
      entry.1.Fits .layer := by
  induction layers generalizing next with
  | nil => simp [layerHeads]
  | cons fragment rest inductionHypothesis =>
    cases built : (layerHead workshop fragment next : Option (Node S P × Nat)) with
    | none => simpa only [layerHeads, built] using inductionHypothesis next
    | some made =>
      obtain ⟨layer, after⟩ := made
      intro entry member
      simp only [layerHeads, built, List.mem_cons] at member
      rcases member with rfl | member
      · exact layer_head_fits workshop fragment next after layer built
      · exact inductionHypothesis after entry member

/-- All layers of the second round fit. -/
theorem fill_layers_fit (workshop : Workshop S) (heads : List (Node S P × Value))
    (filled : List (Node S P)) (next : Nat) (filledFit : ∀ layer ∈ filled, layer.Fits .layer)
    (headsFit : ∀ entry ∈ heads, entry.1.Fits .layer) :
    ∀ layer ∈ (fillLayers workshop filled heads next).1, layer.Fits .layer := by
  induction heads generalizing filled next with
  | nil => simpa only [fillLayers] using filledFit
  | cons entry rest inductionHypothesis =>
    obtain ⟨layer, fragment⟩ := entry
    simp only [fillLayers]
    apply inductionHypothesis
    · intro node member
      rcases List.mem_append.mp member with member | member
      · exact filledFit node member
      · rw [List.mem_singleton.mp member]
        exact fill_layer_fits _ _ _ _ (headsFit _ List.mem_cons_self)
    · exact fun entry member => headsFit entry (List.mem_cons_of_mem _ member)

/-- Building a document gives a scene. -/
theorem document_fits (workshop : Workshop S) (layers : List Value) :
    (document workshop layers : Node S P × Nat).1.Fits .scene := by
  refine .root _ _ rfl fun layer member => ?_
  rw [mem_mattes_first, List.mem_reverse] at member
  exact fill_layers_fit workshop _ [] _ (by simp) (layer_heads_fit workshop layers 1) layer member

end VectorMotion.Scene.Build
