import VectorMotion.Proofs.Render.Settlement
import VectorMotion.Svg.Drawing

/-!
# Drawing without saved states

A canvas keeps what holds for shapes in a brush, which containers save and restore. The same picture
can be drawn with nothing saved at all: what holds is handed to each container by value, each child
changes it for those behind it in the container, and it is dropped where the container ends. A group
of effects is no container in this sense, as its effects hold for the layer that it stands on.

Such a drawing writes its text at once. It carries nothing from one node to the next but the text
and the number of gradients, so nothing that a layer or a group sets can be seen behind it. The two
drawings agree as long as no shape waits for a trim, because what waits is painted where its
container ends and not where it stands.
-/

namespace VectorMotion.Svg

/-- Tags are written one behind the other. -/
theorem Tag.lines_append (first second : List Tag) :
    Tag.lines (first ++ second) = Tag.lines first ++ Tag.lines second := by
  simp [Tag.lines]

/-- A gradient behind others has the number that they leave. -/
theorem gradients_concat {S : Type} [Scalar S] [Written S] (index : Nat)
    (gradients : List (Scene.GradientFill S)) (gradient : Scene.GradientFill S) :
    gradientsFrom index (gradients ++ [gradient]) =
      gradientsFrom index gradients ++ gradientTags (index + gradients.length) gradient := by
  induction gradients generalizing index with
  | nil => simp [gradientsFrom]
  | cons first rest inductionHypothesis =>
    simp [gradientsFrom, inductionHypothesis, Nat.add_assoc, Nat.add_comm 1]

end VectorMotion.Svg

namespace VectorMotion.Render

open Scene Svg

variable {S P : Type}

/-- What holds for the shapes at some place of a scene. -/
@[ext]
structure Scope (S P : Type) where
  placed : Affine P
  opacity : S
  paints : List (Paint S)
  copies : Option (List (Affine P × S))
  cover : Option (Rgba S)

/-- What has been written so far, and how many gradients are among the definitions. -/
@[ext]
structure Page where
  body : String := ""
  definitions : String := ""
  gradients : Nat := 0

variable [Scalar S] [Scalar P] [Widen S P] [Written S] [Written P]

namespace Page

/-- The page with some more elements. -/
def write (page : Page) (elements : List (Element S P)) : Page :=
  { page with body := page.body ++ Tag.lines (elements.map elementTag) }

/-- The page with one more gradient. -/
def define (page : Page) (gradient : GradientFill S) : Page :=
  { page with
    definitions := page.definitions ++ Tag.lines (gradientTags page.gradients gradient)
    gradients := page.gradients + 1 }

end Page

namespace Scope

/-- What holds where nothing has been set. -/
def fresh : Scope S P :=
  { placed := Affine.identity, opacity := 1, paints := [], copies := none, cover := none }

/-- What holds within a transform. -/
def moved (scope : Scope S P) (map : Affine P) : Scope S P :=
  { scope with placed := scope.placed * map }

/-- What holds within a transform that also takes away opacity. -/
def under (scope : Scope S P) (map : Affine P) (opacity : S) : Scope S P :=
  { scope.moved map with opacity := scope.opacity * opacity }

/-- What holds behind one more paint. -/
def painted (scope : Scope S P) (paint : Paint S) : Scope S P :=
  { scope with paints := scope.paints ++ [paint] }

/-- The elements of a shape: every copy of its outline with every paint. -/
def elements (scope : Scope S P) (path : Path P) : List (Element S P) :=
  if path.isEmpty then []
  else (scope.copies.getD [(Affine.identity, 1)]).flatMap fun (place, opacity) =>
    scope.paints.map fun paint =>
      .outline path (scope.placed * place) (scope.opacity * opacity) paint scope.cover

/-- What holds for the contents of a layer, given what its effects have left: the layers that it
follows place it, outermost first, and then its own transform. -/
def ofLayer (scope : Scope S P) (followed : List (LayerEntry S)) (head : Head) (layer : Layer S) :
    Scope S P :=
  let placed := (Parenting.chain followed head layer).reverse.foldl
    (fun scope entry => scope.moved entry.2.transform.map) scope
  placed.under layer.transform.map layer.transform.opacity

/-- The image of a layer, in the place that the layer has. -/
def shown (scope : Scope S P) (kind : LayerKind S) : List (Element S P) :=
  match kind with
  | .shapes => []
  | .picture picture => [.picture picture scope.placed scope.opacity]

/-- What a node that holds nothing sets for those behind it, and what it writes. -/
def leaf (scope : Scope S P) (page : Page) : Kind S P → Scope S P × Page
  | .transform group => (scope.under group.map group.transform.opacity, page)
  | .shape shape => (scope, page.write (scope.elements shape.path))
  | .fill fill => (scope.painted (Paint.ofFill fill), page)
  | .gradient gradient =>
    (scope.painted (.gradient page.gradients gradient.opacity gradient.rule), page.define gradient)
  | .stroke stroke => (scope.painted (Paint.ofStroke stroke), page)
  | .repeater repeater => ({ scope with copies := some repeater.instances }, page)
  | .flood flood => ({ scope with cover := some flood.cover }, page)
  | _ => (scope, page)

mutual
/-- Draws a node: what holds for those behind it in the container, and what has been written by
then. Layers and groups hand on what held before them. -/
def draw (followed : List (LayerEntry S)) (scope : Scope S P) (page : Page) :
    Node S P → Scope S P × Page
  | .mk head kind effects children =>
    if head.hidden then (scope, page)
    else
      match kind with
      | .root | .group _ => (scope, (drawAll followed scope page children).2)
      | .layer layer =>
        if layer.active then
          let (lit, page) := drawAll followed scope page effects
          let inside := lit.ofLayer followed head layer
          (scope, (drawAll followed inside (page.write (inside.shown layer.kind)) children).2)
        else (scope, page)
      | .effectGroup => drawAll followed scope page children
      | other => leaf scope page other

/-- Draws some nodes, one behind the other. -/
def drawAll (followed : List (LayerEntry S)) (scope : Scope S P) (page : Page) :
    List (Node S P) → Scope S P × Page
  | [] => (scope, page)
  | node :: rest =>
    let (scope, page) := draw followed scope page node
    drawAll followed scope page rest
end

/-- Nodes are drawn one after the other, each in the scope that the one before leaves. -/
theorem drawAll_cons (followed : List (LayerEntry S)) (scope : Scope S P) (page : Page)
    (node : Node S P) (rest : List (Node S P)) :
    drawAll followed scope page (node :: rest) =
      drawAll followed (draw followed scope page node).1 (draw followed scope page node).2 rest :=
  rfl

end Scope

/-- The page on which a scene is drawn. -/
def Page.ofScene (scene : Scene S P) : Page :=
  let root := scene.tree.root
  (Scope.draw (Parenting.entries root.children) Scope.fresh {} root).2

namespace Call

/-- Whether a call is about a node. -/
def isVisit {S P : Type} : Call S P → Bool
  | visit .. => true
  | _ => false

end Call

namespace TrimStack

/-- No call about a node comes while shapes are trimmed together. -/
def Apart {S P : Type} (stack : TrimStack) : List (Call S P) → Prop
  | [] => True
  | call :: rest =>
    (call.isVisit = true → stack.current ≠ .simultaneous) ∧ (stack.answer call).Apart rest

instance decidableApart {S P : Type} :
    (stack : TrimStack) → (calls : List (Call S P)) → Decidable (stack.Apart calls)
  | _, [] => .isTrue trivial
  | stack, call :: rest =>
    have := decidableApart (stack.answer call) rest
    inferInstanceAs (Decidable (_ ∧ _))

/-- Calls are apart from the stack if the first of them are, and the others from what these leave.
-/
theorem apart_append {S P : Type} (stack : TrimStack) (first second : List (Call S P)) :
    stack.Apart (first ++ second) ↔ stack.Apart first ∧ (stack.answerAll first).Apart second := by
  induction first generalizing stack with
  | nil => simp [Apart, answerAll]
  | cons call rest inductionHypothesis =>
    simp only [List.cons_append, Apart, inductionHypothesis, and_assoc]
    rfl

/-- Where no shape is trimmed together with others, no trim is carried out. -/
theorem apart_trim {S P : Type} (stack : TrimStack) (head : Head) (trim : Option (Trim.Window S))
    (here : ∀ window, trim = some window → stack.current = .ofMode window.mode)
    (apart : stack.Apart (Call.applyTrim head trim : List (Call S P))) :
    (Call.applyTrim head trim : List (Call S P)) = [] := by
  cases trim with
  | none => rfl
  | some window =>
    cases mode : window.mode with
    | individual => simp [Call.applyTrim, Trim.Window.simultaneous, mode]
    | simultaneous =>
      have state := here window rfl
      simp [Call.applyTrim, Trim.Window.simultaneous, mode, Apart, Call.isVisit, state,
        Trimming.ofMode] at apart

end TrimStack

namespace Canvas

section Brackets

variable {S P : Type} [Scalar S] [Scalar P] [Widen S P] [Measure P]

/-- Calls are answered by answering the first of them and then the others. -/
theorem answerAll_append (canvas : Canvas S P) (first second : List (Call S P)) :
    canvas.answerAll (first ++ second) = (canvas.answerAll first).answerAll second :=
  List.foldl_append ..

/-- Calls that leave what is saved as it was, and the trimming states with it. -/
def Balanced (calls : List (Call S P)) : Prop :=
  ∀ canvas : Canvas S P, (canvas.answerAll calls).saved = canvas.saved ∧
    (canvas.answerAll calls).trimming = canvas.trimming

/-- Calls that are balanced make balanced calls together. -/
theorem Balanced.append {first second : List (Call S P)} (firstBalanced : Balanced first)
    (secondBalanced : Balanced second) : Balanced (first ++ second) := by
  intro canvas
  obtain ⟨saved, trimming⟩ := firstBalanced canvas
  obtain ⟨savedNext, trimmingNext⟩ := secondBalanced (canvas.answerAll first)
  rw [answerAll_append]
  exact ⟨savedNext.trans saved, trimmingNext.trans trimming⟩

/-- The calls of nodes are balanced together if those of every node are. -/
theorem Balanced.flatMap {nodes : List (Node S P)} {calls : Node S P → List (Call S P)}
    (each : ∀ node ∈ nodes, Balanced (calls node)) : Balanced (nodes.flatMap calls) := by
  induction nodes with
  | nil => exact fun _ => ⟨rfl, rfl⟩
  | cons first rest inductionHypothesis =>
    rw [List.flatMap_cons]
    exact (each first List.mem_cons_self).append
      (inductionHypothesis fun node member => each node (List.mem_cons_of_mem _ member))

/-- What is told about a node saves nothing. -/
theorem visits_balanced (calls : List (Call S P))
    (visits : ∀ call ∈ calls, ∃ head visit, call = .visit head visit) : Balanced calls := by
  induction calls with
  | nil => exact fun _ => ⟨rfl, rfl⟩
  | cons call rest inductionHypothesis =>
    have first : Balanced [call] := by
      intro canvas
      obtain ⟨head, visit, rfl⟩ := visits call List.mem_cons_self
      refine ⟨?_, canvas.answer_trimming (.visit head visit)⟩
      cases visit with
      | shape shape => exact (canvas.draw_kept shape.path).2.1
      | transform transform =>
        simp only [answerAll, List.foldl_cons, List.foldl_nil, answer, Canvas.visit, placePicture]
        split <;> rfl
      | _ => rfl
    exact first.append
      (inductionHypothesis fun other member => visits other (List.mem_cons_of_mem _ member))

/-- Applying a trim is balanced. -/
theorem apply_trim_balanced (head : Head) (trim : Option (Trim.Window S)) :
    Balanced (Call.applyTrim head trim : List (Call S P)) := by
  apply visits_balanced
  cases trim with
  | none => simp [Call.applyTrim]
  | some window => cases together : window.simultaneous <;> simp [Call.applyTrim, together]

/-- Restoring brings back the brush that was saved last. -/
theorem answer_restore (canvas : Canvas S P) (brush : Brush S P) (saved : List (Brush S P))
    (last : canvas.saved = brush :: saved) :
    canvas.answer .restore = { canvas with brush, saved } := by
  simp only [answer, last]

/-- A bracket around calls that leave what is saved alone changes nothing by itself, and brings the
whole brush back. -/
theorem bracket_answered {inside : List (Call S P)} (balanced : Balanced inside)
    (canvas : Canvas S P) :
    canvas.answerAll ([.save] ++ inside ++ [.restore]) =
      { (canvas.answer .save).answerAll inside with
        brush := canvas.brush
        saved := canvas.saved } := by
  have last : canvas.answerAll ([.save] ++ inside ++ [.restore]) =
      ((canvas.answer .save).answerAll inside).answer .restore := by
    simp [answerAll, List.foldl_append]
  rw [last]
  exact answer_restore _ _ _ (balanced (canvas.answer .save)).1

/-- Balanced calls stay so between a save and a restore. -/
theorem Balanced.bracket {inside : List (Call S P)} (balanced : Balanced inside) :
    Balanced ([.save] ++ inside ++ [.restore]) := by
  intro canvas
  rw [bracket_answered balanced]
  exact ⟨rfl, (balanced (canvas.answer .save)).2⟩

/-- Balanced calls stay so within the brackets of a trim. -/
theorem Balanced.trimmed {inside : List (Call S P)} (balanced : Balanced inside)
    (trim : Option (Trim.Window S)) : Balanced (Call.trimmed trim inside) := by
  intro canvas
  let opened := canvas.answerAll ([.saveTrimming] ++ Call.enterTrim trim)
  have last : canvas.answerAll (Call.trimmed trim inside) =
      (opened.answerAll inside).answer .restoreTrimming := by
    simp [opened, Call.trimmed, answerAll, List.foldl_append]
  obtain ⟨saved, trimming⟩ := balanced opened
  have openedSaved : opened.saved = canvas.saved := by cases trim <;> rfl
  have closed : opened.trimming.restore = canvas.trimming := by cases trim <;> rfl
  rw [last]
  refine ⟨saved.trans openedSaved, ?_⟩
  simp only [answer, trimming, closed]

/-- The calls of a group before its end, if those inside are balanced. -/
theorem group_balanced (head : Head) (group : Scene.Group S) {inside : List (Call S P)}
    (balanced : Balanced inside) :
    Balanced (Call.trimmed group.trim ([.visit head .group] ++ inside ++
      if group.ownsTrim then Call.applyTrim head group.trim else [])) := by
  have entered : Balanced [(.visit head .group : Call S P)] := visits_balanced _ (by simp)
  refine ((entered.append balanced).append ?_).trimmed group.trim
  split
  · exact apply_trim_balanced head group.trim
  · exact visits_balanced _ (by simp)

/-- The calls that place a layer. -/
theorem placing_balanced (followed : List (LayerEntry S)) (head : Head) (layer : Layer S)
    {effects : List (Call S P)} (balanced : Balanced effects) :
    Balanced (effects ++ Call.parents followed head layer ++
      [.visit head (Call.ofLayerKind layer.kind), .visit head (.transform layer.transform)]) := by
  have parents : Balanced (Call.parents followed head layer : List (Call S P)) :=
    visits_balanced _ fun call member => by
      obtain ⟨owner, visit, same, -⟩ := Call.parents_set followed head layer call member
      exact ⟨owner, visit, same⟩
  exact (balanced.append parents).append (visits_balanced _ (by simp))

/-- The calls for the contents of a layer, if those inside are balanced. -/
theorem layer_balanced (head : Head) (layer : Layer S) {inside : List (Call S P)}
    (balanced : Balanced inside) :
    Balanced (Call.trimmed layer.trim (inside ++ Call.applyTrim head layer.trim)) :=
  (balanced.append (apply_trim_balanced head layer.trim)).trimmed layer.trim

/-- Whatever a node holds, its calls are balanced. -/
theorem node_balanced (followed : List (LayerEntry S)) (node : Node S P) :
    Balanced (Call.ofNode followed node) := by
  induction node with
  | mk head kind effects children effectsBalanced childrenBalanced =>
    have ofEffects := Balanced.flatMap effectsBalanced
    have ofChildren := Balanced.flatMap childrenBalanced
    cases hidden : head.hidden with
    | true =>
      rw [Call.of_hidden _ _ _ _ _ hidden]
      exact visits_balanced _ (by simp)
    | false =>
      cases kind with
      | root =>
        rw [Call.of_root _ _ _ _ hidden]
        exact ofChildren.bracket
      | group group =>
        rw [Call.of_group _ _ _ _ _ hidden]
        exact (group_balanced head group ofChildren).bracket
      | layer layer =>
        cases active : layer.active with
        | false =>
          rw [Call.of_unseen _ _ _ _ _ active]
          exact visits_balanced _ (by simp)
        | true =>
          rw [Call.of_layer _ _ _ _ _ hidden active]
          exact ((placing_balanced followed head layer ofEffects).append
            (layer_balanced head layer ofChildren)).bracket
      | effectGroup =>
        rw [Call.of_effect_group _ _ _ _ hidden]
        exact ofChildren
      | _ =>
        rw [Call.of_leaf _ _ _ _ _ hidden rfl]
        exact visits_balanced _ (by simp [Call.leaf])

/-- Whatever is drawn for a layer or a group, what holds behind it is what has held before it. -/
theorem container_kept (followed : List (LayerEntry S)) (node : Node S P)
    (container : (∃ layer, node.kind = .layer layer) ∨ ∃ group, node.kind = .group group)
    (canvas : Canvas S P) :
    (canvas.answerAll (Call.ofNode followed node)).brush = canvas.brush := by
  obtain ⟨head, kind, effects, children⟩ := node
  have childrenBalanced : Balanced (children.flatMap (Call.ofNode followed)) :=
    .flatMap fun child _ => node_balanced followed child
  cases hidden : head.hidden with
  | true => rw [Call.of_hidden _ _ _ _ _ hidden]; rfl
  | false =>
    obtain ⟨layer, rfl⟩ | ⟨group, rfl⟩ := container
    · cases active : layer.active with
      | false => rw [Call.of_unseen _ _ _ _ _ active]; rfl
      | true =>
        have effectsBalanced : Balanced (effects.flatMap (Call.ofNode followed)) :=
          .flatMap fun effect _ => node_balanced followed effect
        rw [Call.of_layer _ _ _ _ _ hidden active,
          bracket_answered ((placing_balanced followed head layer effectsBalanced).append
            (layer_balanced head layer childrenBalanced))]
    · rw [Call.of_group _ _ _ _ _ hidden,
        bracket_answered (group_balanced head group childrenBalanced)]

/-- What a canvas knows of trims comes from the calls alone. -/
theorem answerAll_trimming (canvas : Canvas S P) (calls : List (Call S P)) :
    (canvas.answerAll calls).trimming = canvas.trimming.answerAll calls := by
  induction calls generalizing canvas with
  | nil => rfl
  | cons call rest inductionHypothesis =>
    exact (inductionHypothesis (canvas.answer call)).trans
      (congrArg (TrimStack.answerAll · rest) (canvas.answer_trimming call))

/-- No node is drawn while shapes are trimmed together. -/
def Apart (canvas : Canvas S P) (calls : List (Call S P)) : Prop := canvas.trimming.Apart calls

/-- Calls are apart from a canvas if the first of them are, and the others from what these leave. -/
theorem apart_append (canvas : Canvas S P) (first second : List (Call S P)) :
    canvas.Apart (first ++ second) ↔
      canvas.Apart first ∧ (canvas.answerAll first).Apart second := by
  unfold Apart
  rw [answerAll_trimming, TrimStack.apart_append]

/-- Calls between a save and a restore are apart from the canvas after the save. -/
theorem apart_bracket {canvas : Canvas S P} {inside : List (Call S P)}
    (apart : canvas.Apart ([.save] ++ inside ++ [.restore])) : (canvas.answer .save).Apart inside :=
  ((apart_append ..).mp apart).1.2

/-- Calls within the brackets of a trim are apart from the canvas after the brackets have opened. -/
theorem apart_trimmed {canvas : Canvas S P} {trim : Option (Trim.Window S)}
    {inside : List (Call S P)} (apart : canvas.Apart (Call.trimmed trim inside)) :
    (canvas.answerAll ([.saveTrimming] ++ Call.enterTrim trim)).Apart inside :=
  ((apart_append ..).mp ((apart_append ..).mp apart).1).2

end Brackets

/-- What holds for the shapes that are drawn now. -/
def scope (canvas : Canvas S P) : Scope S P :=
  { placed := canvas.brush.placed
    opacity := canvas.brush.opacity
    paints := canvas.brush.paints
    copies := canvas.brush.copies
    cover := canvas.brush.cover }

/-- The canvas as a page. -/
def page (canvas : Canvas S P) : Page :=
  { body := Svg.body canvas
    definitions := Tag.lines (gradientsFrom 0 canvas.gradients)
    gradients := canvas.gradients.length }

omit [Widen S P] in
/-- More elements are written behind the others. -/
theorem page_paint (canvas : Canvas S P) (elements : List (Element S P)) :
    ({ canvas with elements := canvas.elements ++ elements } : Canvas S P).page =
      canvas.page.write elements := by
  simp [page, Page.write, Svg.body, bodyTags, Tag.lines_append]

omit [Widen S P] in
/-- One more gradient is written behind the others. -/
theorem page_define (canvas : Canvas S P) (gradient : GradientFill S) :
    ({ canvas with gradients := canvas.gradients ++ [gradient] } : Canvas S P).page =
      canvas.page.define gradient := by
  simp [page, Page.define, Svg.body, bodyTags, Tag.lines_append, gradients_concat]

/-- A shape that does not wait is painted where it stands. -/
theorem draw_draws (canvas : Canvas S P) (path : Path P)
    (apart : canvas.trimming.current ≠ .simultaneous) :
    (canvas.draw path).scope = canvas.scope ∧
      (canvas.draw path).page = canvas.page.write (canvas.scope.elements path) := by
  unfold draw
  split
  · rename_i empty
    simp [Scope.elements, empty, Page.write, Tag.lines]
  · rename_i drawn
    rw [if_neg (by simpa using apart), page_paint]
    refine ⟨rfl, ?_⟩
    rw [Scope.elements, if_neg drawn]
    rfl

variable [Measure P]

/-- Calls after which the scope and the page are as told, and no image is without a place. -/
@[mk_iff draws_iff]
structure Draws (canvas : Canvas S P) (calls : List (Call S P)) (result : Scope S P × Page) :
    Prop where
  scope : (canvas.answerAll calls).scope = result.1
  page : (canvas.answerAll calls).page = result.2
  settled : (canvas.answerAll calls).picture = none

/-- What calls draw is what the last of them draw after the first. -/
theorem draws_append (canvas : Canvas S P) (first second : List (Call S P))
    (result : Scope S P × Page) :
    canvas.Draws (first ++ second) result ↔ (canvas.answerAll first).Draws second result := by
  simp only [draws_iff, answerAll_append]

/-- A node that holds nothing. -/
theorem leaf_draws (canvas : Canvas S P) (head : Head) (kind : Kind S P)
    (settled : canvas.picture = none) (apart : canvas.Apart (Call.leaf head kind)) :
    canvas.Draws (Call.leaf head kind) (canvas.scope.leaf canvas.page kind) := by
  cases kind with
  | shape shape =>
    obtain ⟨scope, page⟩ := canvas.draw_draws shape.path (apart.1 rfl)
    exact ⟨scope, page, (canvas.draw_kept shape.path).2.2.trans settled⟩
  | gradient gradient => exact ⟨rfl, page_define _ gradient, settled⟩
  | _ => exact ⟨rfl, rfl, settled⟩

/-- Nodes are drawn one behind the other if each is drawn as told. -/
theorem nodes_draw (followed : List (LayerEntry S)) (nodes : List (Node S P))
    (each : ∀ node ∈ nodes, ∀ canvas : Canvas S P, canvas.picture = none →
      canvas.Apart (Call.ofNode followed node) →
      canvas.Draws (Call.ofNode followed node) (canvas.scope.draw followed canvas.page node))
    (canvas : Canvas S P) (settled : canvas.picture = none)
    (apart : canvas.Apart (nodes.flatMap (Call.ofNode followed))) :
    canvas.Draws (nodes.flatMap (Call.ofNode followed))
      (canvas.scope.drawAll followed canvas.page nodes) := by
  induction nodes generalizing canvas with
  | nil => exact ⟨rfl, rfl, settled⟩
  | cons first rest inductionHypothesis =>
    rw [List.flatMap_cons] at apart ⊢
    obtain ⟨firstApart, restApart⟩ := (apart_append ..).mp apart
    have before := each first List.mem_cons_self canvas settled firstApart
    rw [draws_append, Scope.drawAll_cons, ← before.scope, ← before.page]
    exact inductionHypothesis (fun node member => each node (List.mem_cons_of_mem _ member)) _
      before.settled restApart

/-- What is drawn in a bracket stays, but what holds is as it was before. -/
theorem bracket_draws {canvas : Canvas S P} {inside : List (Call S P)}
    {result : Scope S P × Page} (balanced : Balanced inside)
    (drawn : (canvas.answer .save).Draws inside result) :
    canvas.Draws ([.save] ++ inside ++ [.restore]) (canvas.scope, result.2) := by
  rw [draws_iff, bracket_answered balanced]
  exact ⟨rfl, drawn.page, drawn.settled⟩

/-- Entering a trim changes the trimming state and nothing else. -/
theorem opening_kept (canvas : Canvas S P) (trim : Option (Trim.Window S)) :
    let opened := canvas.answerAll ([.saveTrimming] ++ Call.enterTrim trim)
    opened.scope = canvas.scope ∧ opened.page = canvas.page ∧ opened.picture = canvas.picture ∧
      ∀ window, trim = some window → opened.trimming.current = .ofMode window.mode := by
  cases trim with
  | none => exact ⟨rfl, rfl, rfl, by simp⟩
  | some window => exact ⟨rfl, rfl, rfl, by rintro _ ⟨⟩; rfl⟩

/-- What a container holds is drawn under its trim as it is without one, and the trim is not carried
out: that would be a call under a trim that treats shapes together. -/
theorem trimmed_draws (result : Scope S P → Page → Scope S P × Page) (canvas : Canvas S P)
    (head : Head) {trim : Option (Trim.Window S)} {inside own : List (Call S P)}
    (owned : own = [] ∨ own = Call.applyTrim head trim) (balanced : Balanced inside)
    (settled : canvas.picture = none)
    (drawn : ∀ opened : Canvas S P, opened.picture = none → opened.Apart inside →
      opened.Draws inside (result opened.scope opened.page))
    (apart : canvas.Apart (Call.trimmed trim (inside ++ own))) :
    canvas.Draws (Call.trimmed trim (inside ++ own)) (result canvas.scope canvas.page) := by
  obtain ⟨insideApart, ownApart⟩ := (apart_append ..).mp (apart_trimmed apart)
  obtain ⟨scope, page, picture, state⟩ := opening_kept canvas trim
  obtain rfl : own = [] := by
    rcases owned with none | rfl
    · exact none
    · refine TrimStack.apart_trim _ head trim (fun window holds => ?_) ownApart
      rw [(balanced _).2]
      exact state window holds
  have done := drawn _ (picture.trans settled) insideApart
  rw [scope, page] at done
  have last : canvas.answerAll (Call.trimmed trim inside) =
      ((canvas.answerAll ([.saveTrimming] ++ Call.enterTrim trim)).answerAll inside).answer
        .restoreTrimming := by
    simp [Call.trimmed, answerAll, List.foldl_append]
  rw [List.append_nil, draws_iff, last]
  exact ⟨done.scope, done.page, done.settled⟩

/-- The layers that a layer follows place it one after the other. -/
theorem parents_draw (canvas : Canvas S P) (followed : List (LayerEntry S)) (head : Head)
    (layer : Layer S) (settled : canvas.picture = none) :
    canvas.Draws (Call.parents followed head layer)
      ((Parenting.chain followed head layer).reverse.foldl
        (fun scope entry => scope.moved entry.2.transform.map) canvas.scope, canvas.page) := by
  unfold Call.parents
  generalize (Parenting.chain followed head layer).reverse = chain
  induction chain generalizing canvas with
  | nil => exact ⟨rfl, rfl, settled⟩
  | cons entry rest inductionHypothesis =>
    exact (draws_append canvas [_] _ _).mpr
      (inductionHypothesis (canvas.answer (.visit entry.1 (.parentTransform entry.2.transform)))
        settled)

/-- An image is painted as soon as its layer is in its place. -/
theorem layer_visits_draw (canvas : Canvas S P) (head : Head) (kind : LayerKind S)
    (transform : Transform S) (settled : canvas.picture = none) :
    let inside := canvas.scope.under transform.map transform.opacity
    canvas.Draws [.visit head (Call.ofLayerKind kind), .visit head (.transform transform)]
      (inside, canvas.page.write (inside.shown kind)) := by
  intro inside
  obtain ⟨brush, saved, trimming, gradients, elements, queue, picture⟩ := canvas
  obtain rfl : picture = none := settled
  cases kind with
  | shapes => exact ⟨rfl, by simp [Scope.shown, Page.write, Tag.lines]; rfl, rfl⟩
  | picture picture => exact ⟨rfl, page_paint _ [.picture picture _ _], rfl⟩

/-- A layer is placed by its effects and by the layers that it follows, and shows its image
there. -/
theorem placing_draws (canvas : Canvas S P) (followed : List (LayerEntry S)) (head : Head)
    (layer : Layer S) (effects : List (Call S P)) (lit : Scope S P × Page)
    (drawn : canvas.Draws effects lit) :
    let inside := lit.1.ofLayer followed head layer
    canvas.Draws (effects ++ Call.parents followed head layer ++
        [.visit head (Call.ofLayerKind layer.kind), .visit head (.transform layer.transform)])
      (inside, lit.2.write (inside.shown layer.kind)) := by
  obtain ⟨scope, effects⟩ := lit
  obtain ⟨rfl, rfl, settled⟩ := drawn
  have placed := parents_draw _ followed head layer settled
  have shown := layer_visits_draw _ head layer.kind layer.transform placed.settled
  rw [placed.scope, placed.page] at shown
  intro inside
  rw [draws_append, answerAll_append]
  exact shown

/-- A node is drawn as it is without saved states, if no shape waits for a trim.

The induction follows the node. A container is a bracket around what it holds, so what holds behind
it is what has held before it; it carries out no trim, as it would be under one that treats shapes
together. -/
theorem node_draws (followed : List (LayerEntry S)) (node : Node S P) (canvas : Canvas S P)
    (settled : canvas.picture = none) (apart : canvas.Apart (Call.ofNode followed node)) :
    canvas.Draws (Call.ofNode followed node) (canvas.scope.draw followed canvas.page node) := by
  induction node generalizing canvas with
  | mk head kind effects children effectsDraw childrenDraw =>
    have ofEffects := nodes_draw followed effects effectsDraw
    have ofChildren := nodes_draw followed children childrenDraw
    let contents := fun (scope : Scope S P) page => Scope.drawAll followed scope page children
    have effectsBalanced : Balanced (effects.flatMap (Call.ofNode followed)) :=
      .flatMap fun effect _ => node_balanced followed effect
    have childrenBalanced : Balanced (children.flatMap (Call.ofNode followed)) :=
      .flatMap fun child _ => node_balanced followed child
    cases hidden : head.hidden with
    | true =>
      rw [Call.of_hidden _ _ _ _ _ hidden]
      simp only [Scope.draw, hidden, ↓reduceIte]
      exact ⟨rfl, rfl, settled⟩
    | false =>
      cases kind with
      | root =>
        rw [Call.of_root _ _ _ _ hidden] at apart ⊢
        simp only [Scope.draw, hidden, Bool.false_eq_true, ↓reduceIte]
        exact bracket_draws childrenBalanced
          (ofChildren (canvas.answer .save) settled (apart_bracket apart))
      | group group =>
        rw [Call.of_group _ _ _ _ _ hidden] at apart ⊢
        have entered : Balanced ([.visit head .group] ++ children.flatMap (Call.ofNode followed)) :=
          (visits_balanced _ (by simp)).append childrenBalanced
        simp only [Scope.draw, hidden, Bool.false_eq_true, ↓reduceIte]
        refine bracket_draws (group_balanced head group childrenBalanced)
          (trimmed_draws contents (canvas.answer .save) head ?_ entered settled ?_
            (apart_bracket apart))
        · cases group.ownsTrim <;> simp
        · intro opened openedSettled openedApart
          rw [draws_append]
          exact ofChildren opened openedSettled openedApart.2
      | layer layer =>
        cases active : layer.active with
        | false =>
          rw [Call.of_unseen _ _ _ _ _ active]
          simp only [Scope.draw, hidden, active, Bool.false_eq_true, ↓reduceIte]
          exact ⟨rfl, rfl, settled⟩
        | true =>
          rw [Call.of_layer _ _ _ _ _ hidden active] at apart ⊢
          simp only [Scope.draw, hidden, active, Bool.false_eq_true, ↓reduceIte]
          obtain ⟨placingApart, contentsApart⟩ := (apart_append ..).mp (apart_bracket apart)
          have lit := ofEffects (canvas.answer .save) settled
            ((apart_append ..).mp ((apart_append ..).mp placingApart).1).1
          have placed := placing_draws _ followed head layer _ _ lit
          refine bracket_draws ((placing_balanced followed head layer effectsBalanced).append
            (layer_balanced head layer childrenBalanced)) ?_
          have within := trimmed_draws contents _ head (.inr rfl) childrenBalanced placed.settled
            ofChildren contentsApart
          rw [placed.scope, placed.page] at within
          rw [draws_append]
          exact within
      | effectGroup =>
        rw [Call.of_effect_group _ _ _ _ hidden] at apart ⊢
        simp only [Scope.draw, hidden, Bool.false_eq_true, ↓reduceIte]
        exact ofChildren canvas settled apart
      | _ =>
        rw [Call.of_leaf _ _ _ _ _ hidden rfl] at apart ⊢
        simp only [Scope.draw, hidden, Bool.false_eq_true, ↓reduceIte]
        exact leaf_draws canvas head _ settled apart

end Canvas

/-- A scene of which no node is drawn while shapes are trimmed together is drawn as it is without
saved states. With or without such trims, a layer or a group leaves the whole brush, the saved
brushes and the trimming states as it has found them. -/
theorem drawing_lexical [Measure P] (scene : Scene S P) (apart : TrimStack.Apart {} scene.calls) :
    let canvas := Canvas.ofCalls scene.calls
    let page := Page.ofScene scene
    Svg.body canvas = page.body ∧
      Tag.lines (gradientsFrom 0 canvas.gradients) = page.definitions ∧
      ∀ (followed : List (LayerEntry S)) (node : Node S P) (before : Canvas S P),
        ((∃ layer, node.kind = .layer layer) ∨ ∃ group, node.kind = .group group) →
          let behind := before.answerAll (Call.ofNode followed node)
          behind.brush = before.brush ∧ behind.saved = before.saved ∧
            behind.trimming = before.trimming := by
  intro canvas page
  have agree := (Canvas.node_draws _ scene.tree.root Canvas.empty rfl apart).page
  exact ⟨congrArg Page.body agree, congrArg Page.definitions agree, fun followed node before
    container => ⟨Canvas.container_kept followed node container before,
      Canvas.node_balanced followed node before⟩⟩

/-- An image, and in front of it a layer under a flood and under a trim for each of its shapes. A
repeater and a fill in it hold for an ellipse, and for one in a group that has a gradient as
well. -/
def floodedLayer : Document Float32 :=
  let points (x y : Nat) : Json.Value := .object [("k", .list [.natural x, .natural y])]
  let amount (x : Nat) : Json.Value := .object [("k", .natural x)]
  let ellipse : Json.Value := .object [("s", points 10 20), ("ty", .text "el")]
  let gradient : Json.Value := .object [("e", points 9 0), ("ty", .text "gf")]
  let group : Json.Value := .object [("it", .list [ellipse, gradient]), ("ty", .text "gr")]
  let repeater : Json.Value := .object [("c", amount 2), ("ty", .text "rp")]
  let fill : Json.Value := .object [("o", amount 50), ("ty", .text "fl")]
  let trim : Json.Value := .object [("e", amount 50), ("m", .natural 2), ("ty", .text "tm")]
  let flood : Json.Value := .object [("ty", .natural 21)]
  let moved : Json.Value := .object [("p", points 3 4)]
  { frameRate := 30
    inPoint := 0
    outPoint := 60
    layers :=
      [.object [("ef", .list [flood]), ("op", .natural 60),
          ("shapes", .list [ellipse, group, fill, repeater, trim]), ("ty", .natural 4)],
        .object [("ks", moved), ("op", .natural 60), ("refId", .text "image"),
          ("ty", .natural 2)]] }

/-- The flooded layer is drawn without saved states, and so is its one gradient. -/
theorem flooded_layer_drawn :
    let scene : Scene Float32 Float := Scene.ofDocument {} floodedLayer
    let canvas := Canvas.ofCalls scene.calls
    TrimStack.Apart {} scene.calls ∧ Svg.body canvas = (Page.ofScene scene).body ∧
      Tag.lines (gradientsFrom 0 canvas.gradients) = (Page.ofScene scene).definitions ∧
      (Page.ofScene scene).gradients = 1 := by
  intro scene canvas
  have apart : TrimStack.Apart {} scene.calls := by decide +kernel
  obtain ⟨body, definitions, -⟩ := drawing_lexical scene apart
  exact ⟨apart, body, definitions, by decide +kernel⟩

end VectorMotion.Render
