import VectorMotion.Proofs.Render.Grammar
import VectorMotion.Render.Recorder

/-!
# Trimming states while a scene is drawn

The trim in force reaches a shape twice: bringing the scene to a frame hands it down the containers
and stores it with the shape, and drawing the scene sets trimming states that are saved and restored
around containers. Here both are shown to agree. The states depend only on the calls and on nothing
else that a drawing does with them, so they are followed on a stack of their own; a recording keeps
the same stack.

A container leaves the stack as it was, so what it sets ends with it.
-/

namespace VectorMotion

variable {S P : Type}

namespace Render

/-- The state in which shapes under a trim are drawn. -/
def Trimming.ofTrim : Option (Trim.Window S) → Trimming
  | some window => ofMode window.mode
  | none => off

namespace TrimStack

/-- What a call does to the trimming states. -/
def answer (stack : TrimStack) : Call S P → TrimStack
  | .saveTrimming => stack.save
  | .restoreTrimming => stack.restore
  | .setTrimming state => stack.set state
  | .save | .restore | .visit .. => stack

/-- What some calls do to the trimming states. -/
def answerAll (stack : TrimStack) (calls : List (Call S P)) : TrimStack := calls.foldl answer stack

/-- The trims in force after two lists of calls, the first before the second. -/
theorem answerAll_append (stack : TrimStack) (first second : List (Call S P)) :
    stack.answerAll (first ++ second) = (stack.answerAll first).answerAll second :=
  List.foldl_append ..

/-- Behind the opening of a bracket the state is that of the trim inside; a trim that is absent
changes nothing, as nothing is around it. -/
theorem answerAll_opening (stack : TrimStack) (around trim : Option (Trim.Window S))
    (here : stack.current = Trimming.ofTrim around) (free : trim = none → around = none) :
    stack.answerAll ([.saveTrimming] ++ Call.enterTrim trim : List (Call S P)) =
      stack.save.set (Trimming.ofTrim trim) := by
  cases trim with
  | some window => rfl
  | none =>
    have off : stack.current = .off := by rw [here, free rfl]; rfl
    simp [answerAll, answer, Call.enterTrim, save, set, Trimming.ofTrim, off]

end TrimStack

open Scene

namespace Call

/-- The shapes that some calls draw, each with the trimming state it is drawn in. -/
def shapesFrom (stack : TrimStack) : List (Call S P) →
    List (Trimming × Head × Scene.Shape S P)
  | [] => []
  | call :: rest =>
    (call.shape?.map fun shape => (stack.current, shape)).toList ++
      shapesFrom (stack.answer call) rest

/-- The shapes in two lists of calls, those of the second under the trims that the first leaves. -/
theorem shapesFrom_append (stack : TrimStack) (first second : List (Call S P)) :
    shapesFrom stack (first ++ second) =
      shapesFrom stack first ++ shapesFrom (stack.answerAll first) second := by
  induction first generalizing stack with
  | nil => rfl
  | cons call rest inductionHypothesis =>
    simp only [List.cons_append, shapesFrom, inductionHypothesis, List.append_assoc]
    rfl

/-- Calls leave a stack as it was, and draw every shape in the state of its own trim. -/
def Agrees (stack : TrimStack) (calls : List (Call S P)) : Prop :=
  stack.answerAll calls = stack ∧
    shapesFrom stack calls =
      (calls.filterMap shape?).map fun shape => (Trimming.ofTrim shape.2.trim, shape)

/-- Two lists of calls that each agree with the trims in force agree together. -/
theorem Agrees.append {stack : TrimStack} {first second : List (Call S P)}
    (firstAgrees : Agrees stack first) (secondAgrees : Agrees stack second) :
    Agrees stack (first ++ second) := by
  obtain ⟨kept, states⟩ := firstAgrees
  obtain ⟨keptNext, statesNext⟩ := secondAgrees
  constructor
  · rw [TrimStack.answerAll_append, kept, keptNext]
  · rw [shapesFrom_append, kept, states, statesNext, List.filterMap_append, List.map_append]

/-- A call that neither changes a trimming state nor draws a shape. -/
def isQuiet : Call S P → Bool
  | save | restore => true
  | saveTrimming | restoreTrimming | setTrimming _ => false
  | visit _ (.shape _) => false
  | visit .. => true

/-- A call that only sets how shapes are drawn neither draws one nor changes a trimming state. -/
theorem IsSetting.quiet {call : Call S P} (sets : call.IsSetting) : call.isQuiet = true := by
  obtain ⟨head, visit, rfl, setting⟩ := sets
  cases visit <;> first | rfl | simp [Visit.isSetting] at setting

/-- Carrying out a trim draws no shape that has not come before. -/
theorem apply_trim_quiet (head : Head) (trim : Option (Trim.Window S)) :
    ∀ call ∈ (applyTrim head trim : List (Call S P)), call.isQuiet = true := by
  cases trim with
  | none => simp [applyTrim]
  | some window => cases mode : window.simultaneous <;> simp [applyTrim, mode, isQuiet]

/-- Quiet calls agree with every stack. -/
theorem quiet_agree (stack : TrimStack) (calls : List (Call S P))
    (quiet : ∀ call ∈ calls, call.isQuiet = true) : Agrees stack calls := by
  induction calls with
  | nil => exact ⟨rfl, rfl⟩
  | cons call rest inductionHypothesis =>
    have first : Agrees stack [call] := by
      have quietCall := quiet call List.mem_cons_self
      cases call with
      | visit head visit => cases visit <;> first | exact ⟨rfl, rfl⟩ | simp [isQuiet] at quietCall
      | _ => first | exact ⟨rfl, rfl⟩ | simp [isQuiet] at quietCall
    exact first.append
      (inductionHypothesis fun other member => quiet other (List.mem_cons_of_mem _ member))

/-- Saving what is not a trimming state changes nothing for the states. -/
theorem Agrees.bracket {stack : TrimStack} {calls : List (Call S P)}
    (inside : Agrees stack calls) : Agrees stack ([save] ++ calls ++ [restore]) := by
  have saved : Agrees stack [(save : Call S P)] := ⟨rfl, rfl⟩
  have restored : Agrees stack [(restore : Call S P)] := ⟨rfl, rfl⟩
  exact (saved.append inside).append restored

/-- A bracket agrees with a stack if what it holds agrees with the state of its trim. -/
theorem trimmed_agrees (stack : TrimStack) (around trim : Option (Trim.Window S))
    (calls : List (Call S P)) (here : stack.current = Trimming.ofTrim around)
    (free : trim = none → around = none)
    (inside : Agrees (stack.save.set (Trimming.ofTrim trim)) calls) :
    Agrees stack (trimmed trim calls) := by
  have opened := stack.answerAll_opening (P := P) around trim here free
  have silent : shapesFrom stack ([saveTrimming] ++ enterTrim trim : List (Call S P)) = [] := by
    cases trim <;> rfl
  have noShapes : ([saveTrimming] ++ enterTrim trim : List (Call S P)).filterMap shape? = [] := by
    cases trim <;> rfl
  obtain ⟨kept, states⟩ := inside
  unfold trimmed
  constructor
  · rw [TrimStack.answerAll_append, TrimStack.answerAll_append, opened, kept]
    rfl
  · rw [shapesFrom_append, shapesFrom_append, opened, silent, states, List.filterMap_append,
      List.filterMap_append, noShapes, List.nil_append, List.nil_append]
    simp [shapesFrom, shape?]

/-- Contents agree with a stack that has the state of the trim around them.

The induction is on the grammar. A shape is drawn in the state of the trim around it, which is its
own; a group sets the state of its trim, and the state around it comes back behind it. -/
theorem Contents.agree {around : Option (Trim.Window S)} {calls : List (Call S P)}
    (contents : Contents around calls) (stack : TrimStack)
    (here : stack.current = Trimming.ofTrim around) : Agrees stack calls := by
  induction contents generalizing stack with
  | nothing around => exact ⟨rfl, rfl⟩
  | sequence around first second firstContents secondContents firstAgrees secondAgrees =>
    exact (firstAgrees stack here).append (secondAgrees stack here)
  | setting around call sets =>
    exact quiet_agree stack _ fun other member => by
      rw [List.mem_singleton.mp member]
      exact sets.quiet
  | shape head shape => exact ⟨rfl, by simp [shapesFrom, shape?, here]⟩
  | group around head group inside free inherited insideContents insideAgrees =>
    have own : Agrees (stack.save.set (Trimming.ofTrim group.trim))
        (if group.ownsTrim then applyTrim head group.trim else [] : List (Call S P)) := by
      apply quiet_agree
      intro call member
      split at member
      · exact apply_trim_quiet head group.trim call member
      · simp at member
    have entered : Agrees (stack.save.set (Trimming.ofTrim group.trim))
        [(visit head .group : Call S P)] := ⟨rfl, rfl⟩
    rw [group_bracket]
    have whole := trimmed_agrees stack around group.trim _ here free
      ((entered.append (insideAgrees _ rfl)).append own)
    exact whole.bracket

/-- Layers agree with a stack on which nothing is in force. -/
theorem Layers.agree {calls : List (Call S P)} (layers : Layers calls) (stack : TrimStack)
    (off : stack.current = .off) : Agrees stack calls := by
  induction layers with
  | nothing => exact ⟨rfl, rfl⟩
  | sequence first second firstLayers secondLayers firstAgrees secondAgrees =>
    exact firstAgrees.append secondAgrees
  | layer followed head content effects inside effectsSet insideContents =>
    cases active : content.active with
    | false =>
      rw [layer_inactive _ _ _ _ _ active]
      exact ⟨rfl, rfl⟩
    | true =>
      have placed : Agrees stack (effects ++ parents followed head content ++
          [visit head (ofLayerKind content.kind), visit head (.transform content.transform)]) := by
        apply quiet_agree
        simp only [List.mem_append, List.mem_cons, List.not_mem_nil, or_false]
        rintro call ((effect | parent) | rfl | rfl)
        · exact (effectsSet call effect).quiet
        · exact (parents_set followed head content call parent).quiet
        · cases content.kind <;> rfl
        · rfl
      have inside := insideContents.agree (stack.save.set (Trimming.ofTrim content.trim)) rfl
      have whole := trimmed_agrees stack none content.trim _ off (fun _ => rfl)
        (inside.append (quiet_agree _ _ (apply_trim_quiet head content.trim)))
      rw [layer_bracket _ _ _ _ _ active]
      exact (placed.append whole).bracket

end Call

end Render

end VectorMotion
