import VectorMotion.Proofs.Render.Coats
import VectorMotion.Proofs.Render.TrimState

/-!
# Settling the queue

Every shape that is queued while a scene is drawn is taken by the trim that it is under, and by no
other. What has been queued behind the mark of a container belongs to the trim in force there. A
container that adds to the trim takes all of it when it ends; one that does not hands it to the
container around it, which is under the same trim.

What a drawing leaves behind is read off the same invariant: layers are under no trim, and where no
trim is in force nothing waits.
-/

namespace VectorMotion.Render

open Scene

variable {S P : Type}

namespace Ledger

/-- Only how later shapes look has changed. -/
structure Still (before after : Ledger S P) : Prop where
  trimming : after.canvas.trimming = before.canvas.trimming
  saved : after.canvas.saved = before.canvas.saved
  mark : after.canvas.brush.mark = before.canvas.brush.mark
  picture : after.canvas.picture = before.canvas.picture
  queue : after.canvas.queue = before.canvas.queue
  waiting : after.waiting = before.waiting
  clearings : after.clearings = before.clearings

/-- Two stretches that leave the ledger still do so together. -/
theorem Still.trans {first second third : Ledger S P} (before : Still first second)
    (after : Still second third) : Still first third where
  trimming := after.trimming.trans before.trimming
  saved := after.saved.trans before.saved
  mark := after.mark.trans before.mark
  picture := after.picture.trans before.picture
  queue := after.queue.trans before.queue
  waiting := after.waiting.trans before.waiting
  clearings := after.clearings.trans before.clearings

/-- What waits behind the mark is under the trim around it, and nothing waits unless that trim
treats shapes together. What trims have taken was under the windows with which they took it. -/
structure Tidy (around : Option (Trim.Window S)) (ledger : Ledger S P) : Prop where
  mirrored : ledger.waiting.map Pile.shown = ledger.canvas.queue
  below : ledger.canvas.brush.mark ≤ ledger.waiting.length
  pending : ∀ deposit ∈ (ledger.waiting.drop ledger.canvas.brush.mark).flatMap Pile.made,
    deposit.trim = around
  idle : Trimming.ofTrim around ≠ .simultaneous →
    ledger.waiting.drop ledger.canvas.brush.mark = []
  matched : ∀ clearing ∈ ledger.clearings, ∀ deposit ∈ clearing.deposits,
    deposit.trim = some clearing.window
  picture : ledger.canvas.picture = none

/-- A tidy ledger on which the trim around is in force. -/
structure Ready (around : Option (Trim.Window S)) (ledger : Ledger S P) : Prop
    extends Tidy around ledger where
  state : ledger.canvas.trimming.current = Trimming.ofTrim around

/-- What the containers around have set and queued is as it was. -/
structure Frame (before after : Ledger S P) : Prop where
  trimming : after.canvas.trimming = before.canvas.trimming
  saved : after.canvas.saved = before.canvas.saved
  mark : after.canvas.brush.mark = before.canvas.brush.mark
  kept : after.waiting.take before.canvas.brush.mark =
    before.waiting.take before.canvas.brush.mark

/-- Two stretches that keep the frame of the ledger do so together. -/
theorem Frame.trans {first second third : Ledger S P} (before : Frame first second)
    (after : Frame second third) : Frame first third where
  trimming := after.trimming.trans before.trimming
  saved := after.saved.trans before.saved
  mark := after.mark.trans before.mark
  kept := by
    have kept := after.kept
    rw [before.mark] at kept
    exact kept.trans before.kept

/-- What leaves the ledger still keeps its frame. -/
theorem Still.frame {before after : Ledger S P} (still : Still before after) :
    Frame before after :=
  ⟨still.trimming, still.saved, still.mark, by rw [still.waiting]⟩

/-- A ledger that is ready for a window stays so while it is left still. -/
theorem Still.ready {around : Option (Trim.Window S)} {before after : Ledger S P}
    (still : Still before after) (ready : before.Ready around) : after.Ready around := by
  constructor
  · constructor
    · rw [still.waiting, still.queue, ready.mirrored]
    · rw [still.waiting, still.mark]
      exact ready.below
    · rw [still.waiting, still.mark]
      exact ready.pending
    · rw [still.waiting, still.mark]
      exact ready.idle
    · rw [still.clearings]
      exact ready.matched
    · rw [still.picture, ready.picture]
  · rw [still.trimming, ready.state]

/-- A ledger inside a bracket that has been opened over another. All that has waited outside waits
still, and the mark stands behind it. -/
structure Opened (trim : Option (Trim.Window S)) (outside inside : Ledger S P) : Prop where
  trimming : inside.canvas.trimming =
    outside.canvas.trimming.save.set (Trimming.ofTrim trim)
  saved : inside.canvas.saved = outside.canvas.brush :: outside.canvas.saved
  mark : inside.canvas.brush.mark = outside.waiting.length
  queued : inside.waiting.take outside.waiting.length = outside.waiting

/-- A bracket stays open while calls keep to themselves. -/
theorem Opened.frame {trim : Option (Trim.Window S)} {outside inside after : Ledger S P}
    (opened : Opened trim outside inside) (frame : Frame inside after) :
    Opened trim outside after where
  trimming := frame.trimming.trans opened.trimming
  saved := frame.saved.trans opened.saved
  mark := frame.mark.trans opened.mark
  queued := by
    have kept := frame.kept
    rw [opened.mark] at kept
    exact kept.trans opened.queued

end Ledger

variable [Scalar S] [Scalar P] [Widen S P]

/-- Drawing a shape changes neither the brush nor what is saved. -/
theorem Canvas.draw_kept (canvas : Canvas S P) (path : Path P) :
    (canvas.draw path).brush = canvas.brush ∧ (canvas.draw path).saved = canvas.saved ∧
      (canvas.draw path).picture = canvas.picture := by
  unfold draw
  split
  · exact ⟨rfl, rfl, rfl⟩
  · split <;> exact ⟨rfl, rfl, rfl⟩

variable [Measure P]

/-- A canvas keeps the trimming states that the calls set. -/
theorem Canvas.answer_trimming (canvas : Canvas S P) (call : Call S P) :
    (canvas.answer call).trimming = canvas.trimming.answer call := by
  cases call with
  | visit head visit =>
    cases visit with
    | shape shape =>
      simp only [answer, Canvas.visit, draw, TrimStack.answer]
      split
      · rfl
      · split <;> rfl
    | transform transform =>
      simp only [answer, Canvas.visit, placePicture, TrimStack.answer]
      split <;> rfl
    | _ => rfl
  | restore =>
    simp only [answer, TrimStack.answer]
    split <;> rfl
  | _ => rfl

namespace Ledger

/-- The ledger answers two lists of calls as one, the first before the second. -/
theorem answerAll_append (ledger : Ledger S P) (first second : List (Call S P)) :
    ledger.answerAll (first ++ second) = (ledger.answerAll first).answerAll second :=
  List.foldl_append ..

/-- Settings only change how later shapes look. -/
theorem settings_still (ledger : Ledger S P) (calls : List (Call S P))
    (set : ∀ call ∈ calls, call.IsSetting) : Still ledger (ledger.answerAll calls) := by
  induction calls generalizing ledger with
  | nil => exact ⟨rfl, rfl, rfl, rfl, rfl, rfl, rfl⟩
  | cons call rest inductionHypothesis =>
    have first : Still ledger (ledger.answer call) := by
      obtain ⟨head, visit, rfl, sets⟩ := set call List.mem_cons_self
      cases visit <;>
        first
        | exact ⟨rfl, rfl, rfl, rfl, rfl, rfl, rfl⟩
        | simp [Visit.isSetting] at sets
    exact first.trans (inductionHypothesis _ fun other member =>
      set other (List.mem_cons_of_mem _ member))

/-- The visits that begin a layer leave no image behind that has no place. -/
theorem layer_visits_still (ledger : Ledger S P) (head : Head) (kind : LayerKind S)
    (transform : Transform S) (none : ledger.canvas.picture = none) :
    Still ledger (ledger.answerAll
      [.visit head (Call.ofLayerKind kind), .visit head (.transform transform)]) := by
  obtain ⟨⟨brush, saved, trimming, gradients, elements, queue, picture⟩, count, waiting,
    clearings⟩ := ledger
  obtain rfl : picture = .none := none
  cases kind <;> exact ⟨rfl, rfl, rfl, rfl, rfl, rfl, rfl⟩

/-- Calls that leave a ledger ready for more under the same trim, and all around it alone. -/
def Passes (around : Option (Trim.Window S)) (calls : List (Call S P)) : Prop :=
  ∀ ledger : Ledger S P, ledger.Ready around →
    (ledger.answerAll calls).Ready around ∧ Frame ledger (ledger.answerAll calls)

/-- Two lists of calls that each pass under a window pass together. -/
theorem Passes.append {around : Option (Trim.Window S)} {first second : List (Call S P)}
    (firstPasses : Passes around first) (secondPasses : Passes around second) :
    Passes around (first ++ second) := by
  intro ledger ready
  obtain ⟨between, frame⟩ := firstPasses ledger ready
  obtain ⟨after, frameNext⟩ := secondPasses _ between
  rw [answerAll_append]
  exact ⟨after, frame.trans frameNext⟩

/-- A shape is queued behind the mark, under the trim that it holds, or it is not queued at all. -/
theorem shape_passes (head : Head) (shape : Scene.Shape S P) :
    Passes shape.trim [(.visit head (.shape shape) : Call S P)] := by
  intro ledger ready
  change (ledger.answer (.visit head (.shape shape))).Ready shape.trim ∧
    Frame ledger (ledger.answer (.visit head (.shape shape)))
  obtain ⟨brush, saved, picture⟩ := ledger.canvas.draw_kept shape.path
  have mark : (ledger.answer (.visit head (.shape shape))).canvas.brush.mark =
      ledger.canvas.brush.mark := congrArg Brush.mark brush
  have trimming := ledger.canvas.answer_trimming (.visit head (.shape shape))
  have mirrored := ledger.answer_mirrored (.visit head (.shape shape)) ready.mirrored
  have waiting : (ledger.answer (.visit head (.shape shape))).waiting =
      (ledger.canvas.deposits ledger.count (.visit head (.shape shape))).foldl
        (Pile.put ledger.canvas.brush.mark) ledger.waiting := rfl
  have deposited : ∀ deposit ∈ ledger.canvas.deposits ledger.count (.visit head (.shape shape)),
      deposit.trim = shape.trim ∧ ledger.canvas.trimming.current = .simultaneous := by
    intro deposit member
    obtain ⟨_, _, same, -, state, -, trim, -⟩ := (Canvas.mem_deposits _ _ _ _).mp member
    obtain ⟨-, same⟩ := Call.visit.inj same
    rw [trim, Visit.shape.inj same]
    exact ⟨rfl, state⟩
  generalize ledger.canvas.deposits ledger.count (.visit head (.shape shape)) = deposits at *
  have behind := Pile.put_all_behind _ _ deposits ready.below
  obtain ⟨kept, below⟩ := Pile.put_all_below _ _ deposits ready.below
  rw [← waiting] at behind kept below
  refine ⟨⟨⟨mirrored, ?_, ?_, ?_, ready.matched, picture.trans ready.picture⟩, ?_⟩,
    ⟨trimming, saved, mark, kept⟩⟩
  · rw [mark]
    exact below
  · rw [mark, behind]
    intro deposit member
    rcases List.mem_append.mp member with old | new
    · exact ready.pending deposit old
    · exact (deposited deposit new).1
  · intro apart
    have none : deposits = [] := List.eq_nil_iff_forall_not_mem.mpr fun deposit member =>
      apart (ready.state.symm.trans (deposited deposit member).2)
    rw [mark, waiting, none]
    exact ready.idle apart
  · exact (congrArg TrimStack.current trimming).trans ready.state

/-- A trim that is carried out takes everything behind the mark, so that nothing waits there. -/
theorem trim_settles (around : Option (Trim.Window S)) (head : Head) (window : Trim.Window S)
    (ledger : Ledger S P) (ready : ledger.Ready (some window)) :
    (ledger.answer (.visit head (.trim window))).Tidy around ∧
      Frame ledger (ledger.answer (.visit head (.trim window))) := by
  have length : (ledger.waiting.take ledger.canvas.brush.mark).length =
      ledger.canvas.brush.mark := by
    rw [List.length_take]
    exact Nat.min_eq_left ready.below
  have emptied : (ledger.answer (.visit head (.trim window))).waiting.drop
      ledger.canvas.brush.mark = [] := List.drop_eq_nil_of_le (Nat.le_of_eq length)
  have kept : (ledger.answer (.visit head (.trim window))).waiting.take
      ledger.canvas.brush.mark = ledger.waiting.take ledger.canvas.brush.mark :=
    List.take_of_length_le (Nat.le_of_eq length)
  have mirrored := ledger.answer_mirrored (.visit head (.trim window)) ready.mirrored
  refine ⟨⟨mirrored, Nat.le_of_eq length.symm, ?_, fun _ => emptied, ?_, ready.picture⟩,
    ⟨rfl, rfl, rfl, kept⟩⟩
  · intro deposit member
    change deposit ∈ ((ledger.answer (.visit head (.trim window))).waiting.drop
      ledger.canvas.brush.mark).flatMap Pile.made at member
    rw [emptied] at member
    simp at member
  · intro clearing member
    rcases List.mem_append.mp member with earlier | new
    · exact ready.matched clearing earlier
    · rw [List.mem_singleton.mp new]
      exact ready.pending

/-- A container that adds to the trim takes what waits in it when it ends. One that does not has
queued under the trim around it, and leaves what waits to the container around. -/
theorem own_trim_settles {around trim : Option (Trim.Window S)} (head : Head) (owns : Bool)
    (inherited : owns = false → trim = around) (ledger : Ledger S P) (ready : ledger.Ready trim) :
    let after := ledger.answerAll (if owns then Call.applyTrim head trim else [])
    after.Tidy around ∧ Frame ledger after := by
  have same : Frame ledger ledger := ⟨rfl, rfl, rfl, rfl⟩
  -- Where shapes are not trimmed together nothing waits, so there is nothing to take.
  have untouched (apart : Trimming.ofTrim trim ≠ .simultaneous) : ledger.Tidy around := by
    have empty := ready.idle apart
    exact ⟨ready.mirrored, ready.below, by simp [empty], fun _ => empty, ready.matched,
      ready.picture⟩
  cases owns with
  | false =>
    obtain rfl := inherited rfl
    exact ⟨ready.toTidy, same⟩
  | true =>
    cases trim with
    | none => exact ⟨untouched (by simp [Trimming.ofTrim]), same⟩
    | some window =>
      cases mode : window.mode with
      | individual =>
        have noCall : Call.applyTrim (P := P) head (some window) = [] := by
          simp [Call.applyTrim, Trim.Window.simultaneous, mode]
        simp only [↓reduceIte, noCall]
        exact ⟨untouched (by simp [Trimming.ofTrim, Trimming.ofMode, mode]), same⟩
      | simultaneous =>
        have call : Call.applyTrim (P := P) head (some window) = [.visit head (.trim window)] := by
          simp [Call.applyTrim, Trim.Window.simultaneous, mode]
        simp only [↓reduceIte, call]
        exact trim_settles around head window ledger ready

/-- The opening of a trim changes nothing but the trimming state. -/
theorem opening_answered (ledger : Ledger S P) (trim : Option (Trim.Window S)) :
    let opened := ledger.answerAll ([.saveTrimming] ++ Call.enterTrim trim)
    opened.canvas = { ledger.canvas with
      trimming := ledger.canvas.trimming.answerAll
        ([.saveTrimming] ++ Call.enterTrim trim : List (Call S P)) } ∧
      opened.waiting = ledger.waiting ∧ opened.clearings = ledger.clearings := by
  cases trim <;> exact ⟨rfl, rfl, rfl⟩

/-- Restoring brings back the brush that was saved last. -/
theorem restore_answered (ledger : Ledger S P) (brush : Brush S P) (saved : List (Brush S P))
    (last : ledger.canvas.saved = brush :: saved) :
    let restored := ledger.answer .restore
    restored.canvas = { ledger.canvas with brush, saved } ∧ restored.waiting = ledger.waiting ∧
      restored.clearings = ledger.clearings := by
  refine ⟨?_, rfl, rfl⟩
  simp only [answer, Canvas.answer, last]

/-- Saving moves the mark behind all that waits, so a bracket begins ready for its trim. -/
theorem bracket_opens {around trim : Option (Trim.Window S)} {ledger begun : Ledger S P}
    (ready : ledger.Ready around) (free : trim = none → around = none)
    (still : Still (ledger.answer .save) begun) :
    let opened := begun.answerAll ([.saveTrimming] ++ Call.enterTrim trim)
    opened.Ready trim ∧ Opened trim ledger opened := by
  intro opened
  obtain ⟨canvas, waits, clearings⟩ := begun.opening_answered trim
  have waiting : opened.waiting = ledger.waiting := waits.trans still.waiting
  have trimming : opened.canvas.trimming =
      ledger.canvas.trimming.save.set (Trimming.ofTrim trim) := by
    rw [canvas, still.trimming]
    exact TrimStack.answerAll_opening _ around trim ready.state free
  have length : ledger.canvas.queue.length = ledger.waiting.length := by
    rw [← ready.mirrored, List.length_map]
  have mark : opened.canvas.brush.mark = ledger.waiting.length := by
    rw [canvas]
    exact still.mark.trans length
  have nothing : opened.waiting.drop opened.canvas.brush.mark = [] := by
    rw [mark, waiting, List.drop_length]
  have saved : opened.canvas.saved = ledger.canvas.brush :: ledger.canvas.saved := by
    rw [canvas]
    exact still.saved
  constructor
  · refine ⟨⟨?_, ?_, by simp [nothing], fun _ => nothing, ?_, ?_⟩, ?_⟩
    · rw [waiting, ready.mirrored, canvas]
      exact still.queue.symm
    · exact Nat.le_of_eq (by rw [mark, waiting])
    · rw [clearings, still.clearings]
      exact ready.matched
    · rw [canvas]
      exact still.picture.trans ready.picture
    · rw [trimming]
      rfl
  · exact ⟨trimming, saved, mark, by rw [waiting, List.take_length]⟩

/-- What a bracket has left behind its mark waits under the trim around, and restoring moves the
mark back before it. -/
theorem bracket_closes {around trim : Option (Trim.Window S)} {ledger inside : Ledger S P}
    (ready : ledger.Ready around) (opened : Opened trim ledger inside)
    (tidy : inside.Tidy around) :
    let closed := (inside.answer .restoreTrimming).answer .restore
    closed.Ready around ∧ Frame ledger closed := by
  intro closed
  obtain ⟨canvas, waits, clearings⟩ :=
    (inside.answer .restoreTrimming).restore_answered _ _ opened.saved
  have whole : closed.waiting = ledger.waiting ++ inside.waiting.drop inside.canvas.brush.mark := by
    have parts := List.take_append_drop ledger.waiting.length inside.waiting
    rw [opened.queued] at parts
    rw [opened.mark, parts]
    exact waits
  have trimming : closed.canvas.trimming = ledger.canvas.trimming := by
    rw [canvas]
    exact congrArg TrimStack.restore opened.trimming
  have brush : closed.canvas.brush = ledger.canvas.brush := by rw [canvas]
  have saved : closed.canvas.saved = ledger.canvas.saved := by rw [canvas]
  have behind : closed.waiting.drop ledger.canvas.brush.mark =
      ledger.waiting.drop ledger.canvas.brush.mark ++
        inside.waiting.drop inside.canvas.brush.mark := by
    rw [whole, List.drop_append_of_le_length ready.below]
  constructor
  · refine ⟨⟨?_, ?_, ?_, ?_, ?_, ?_⟩, ?_⟩
    · rw [waits, canvas]
      exact tidy.mirrored
    · rw [brush, whole, List.length_append]
      exact Nat.le_add_right_of_le ready.below
    · rw [brush, behind, List.flatMap_append]
      intro deposit member
      rcases List.mem_append.mp member with before | left
      · exact ready.pending deposit before
      · exact tidy.pending deposit left
    · intro apart
      rw [brush, behind, ready.idle apart, tidy.idle apart]
      rfl
    · rw [clearings]
      exact tidy.matched
    · rw [canvas]
      exact tidy.picture
    · rw [trimming, ready.state]
  · refine ⟨trimming, saved, congrArg Brush.mark brush, ?_⟩
    rw [whole, List.take_append_of_le_length ready.below]

/-- A container that sets a trim and settles it leaves everything around it as it was, if what comes
before the trim only sets how shapes look. -/
theorem bracket_passes {around trim : Option (Trim.Window S)} {placing inside : List (Call S P)}
    (free : trim = none → around = none)
    (placed : ∀ ledger : Ledger S P, ledger.canvas.picture = none →
      Still ledger (ledger.answerAll placing))
    (settles : ∀ ledger : Ledger S P, ledger.Ready trim →
      (ledger.answerAll inside).Tidy around ∧ Frame ledger (ledger.answerAll inside)) :
    Passes around ([.save] ++ (placing ++ Call.trimmed trim inside) ++ [.restore]) := by
  intro ledger ready
  have split : ledger.answerAll ([.save] ++ (placing ++ Call.trimmed trim inside) ++ [.restore]) =
      (((((ledger.answer .save).answerAll placing).answerAll
        ([.saveTrimming] ++ Call.enterTrim trim)).answerAll inside).answer
          .restoreTrimming).answer .restore := by
    simp [answerAll, Call.trimmed, List.foldl_append]
  rw [split]
  obtain ⟨inner, opened⟩ := bracket_opens ready free (placed (ledger.answer .save) ready.picture)
  obtain ⟨tidy, frame⟩ := settles _ inner
  exact bracket_closes ready (opened.frame frame) tidy

/-- Contents leave a ledger ready for more under the trim around them.

The induction is on the grammar. A shape is queued under its own trim, which is the one around it,
and a group settles what it has queued. -/
theorem contents_pass {around : Option (Trim.Window S)} {calls : List (Call S P)}
    (contents : Call.Contents around calls) : Passes around calls := by
  induction contents with
  | nothing around => exact fun ledger ready => ⟨ready, rfl, rfl, rfl, rfl⟩
  | sequence around first second firstContents secondContents firstPasses secondPasses =>
    exact firstPasses.append secondPasses
  | setting around call sets =>
    intro ledger ready
    have still := settings_still ledger [call] fun other member => by
      rwa [List.mem_singleton.mp member]
    exact ⟨still.ready ready, still.frame⟩
  | shape head shape => exact shape_passes head shape
  | group around head group inside free inherited insideContents insidePasses =>
    rw [Call.group_bracket]
    change Passes around ([.save] ++ ([] ++ Call.trimmed group.trim _) ++ [.restore])
    refine bracket_passes free (fun _ _ => ⟨rfl, rfl, rfl, rfl, rfl, rfl, rfl⟩) ?_
    intro ledger ready
    have entered : Passes group.trim [(.visit head .group : Call S P)] := fun begun begunReady =>
      have still : Still begun (begun.answer (.visit head .group)) :=
        ⟨rfl, rfl, rfl, rfl, rfl, rfl, rfl⟩
      ⟨still.ready begunReady, still.frame⟩
    obtain ⟨between, frame⟩ := (entered.append insidePasses) ledger ready
    obtain ⟨tidy, frameNext⟩ := own_trim_settles head group.ownsTrim inherited _ between
    rw [answerAll_append]
    exact ⟨tidy, frame.trans frameNext⟩

/-- Layers leave a ledger on which no trim is in force as it was. -/
theorem layers_pass {calls : List (Call S P)} (layers : Call.Layers calls) :
    Passes none calls := by
  induction layers with
  | nothing => exact fun ledger ready => ⟨ready, rfl, rfl, rfl, rfl⟩
  | sequence first second firstLayers secondLayers firstPasses secondPasses =>
    exact firstPasses.append secondPasses
  | layer followed head content effects inside effectsSet insideContents =>
    cases active : content.active with
    | false =>
      rw [Call.layer_inactive _ _ _ _ _ active]
      exact fun ledger ready => ⟨ready, rfl, rfl, rfl, rfl⟩
    | true =>
      rw [Call.layer_bracket _ _ _ _ _ active]
      refine bracket_passes (fun _ => rfl) ?_ ?_
      · intro ledger none
        have settings := settings_still ledger (effects ++ Call.parents followed head content)
          fun call member => (List.mem_append.mp member).elim (effectsSet call)
            (Call.parents_set followed head content call)
        rw [answerAll_append]
        exact settings.trans (layer_visits_still _ _ _ _ (settings.picture.trans none))
      · intro ledger ready
        obtain ⟨between, frame⟩ := contents_pass insideContents ledger ready
        obtain ⟨tidy, frameNext⟩ : Tidy none _ ∧ _ :=
          own_trim_settles head true (by simp) _ between
        rw [answerAll_append]
        exact ⟨tidy, frame.trans frameNext⟩

/-- A drawing of layers leaves nothing behind on an empty canvas, and has taken every shape under
its own trim. -/
theorem layers_settle {layers : List (Call S P)} (phrase : Call.Layers layers) :
    let final : Ledger S P := ofCalls ([.save] ++ layers ++ [.restore])
    final.waiting = [] ∧ final.canvas.saved = [] ∧ final.canvas.trimming = {} ∧
      final.canvas.picture = none ∧
      ∀ clearing ∈ final.clearings, ∀ deposit ∈ clearing.deposits,
        deposit.trim = some clearing.window := by
  intro final
  have ready : ((empty : Ledger S P).answer .save).Ready none :=
    ⟨⟨rfl, Nat.zero_le _, by simp [empty, answer, Canvas.deposits], fun _ => rfl,
      by simp [empty, answer], rfl⟩, rfl⟩
  obtain ⟨after, frame⟩ := layers_pass phrase _ ready
  have last : final = (((empty : Ledger S P).answer .save).answerAll layers).answer .restore := by
    simp [final, ofCalls, answerAll, List.foldl_append]
  have saved : (((empty : Ledger S P).answer .save).answerAll layers).canvas.saved =
      [Brush.fresh] := frame.saved
  obtain ⟨canvas, waiting, clearings⟩ := restore_answered _ _ _ saved
  rw [last]
  refine ⟨?_, by rw [canvas], ?_, ?_, ?_⟩
  · have none := after.idle (by simp [Trimming.ofTrim])
    rw [frame.mark] at none
    exact waiting.trans none
  · rw [canvas]
    exact frame.trimming
  · rw [canvas]
    exact after.picture
  · rw [clearings]
    exact after.matched

end Ledger

/-- A trim that has been carried out is one of the calls, and has taken what the canvas had in its
queue behind the mark. -/
theorem Ledger.Records.clearing_called {ledger : Ledger S P} {calls : List (Call S P)}
    (records : ledger.Records calls) {clearing : Clearing S P}
    (member : clearing ∈ ledger.clearings) :
    ∃ head, calls[clearing.call]? = some (.visit head (.trim clearing.window)) ∧
      let before := Canvas.ofCalls (calls.take clearing.call)
      clearing.slice.map Pile.shown = before.queue.drop before.brush.mark := by
  have shown : clearing.shown ∈ alongside Canvas.slices calls :=
    records.faithful ▸ List.mem_map_of_mem member
  obtain ⟨number, call, found, given⟩ := (mem_alongside _ _ _).mp shown
  unfold Canvas.slices at given
  split at given
  next head window =>
    simp only [List.mem_singleton, Clearing.shown, Prod.mk.injEq] at given
    obtain ⟨rfl, rfl, slice⟩ := given
    exact ⟨head, found, slice⟩
  next => simp at given

/-- The canvas after one call more. -/
theorem Canvas.of_calls_next {calls : List (Call S P)} {number : Nat} {call : Call S P}
    (found : calls[number]? = some call) :
    ofCalls (calls.take (number + 1)) = (ofCalls (calls.take number)).answer call := by
  rw [List.take_add_one, found]
  exact List.foldl_concat ..

/-- When a scene has been drawn at a frame, nothing waits and nothing is saved, no trim is in force
and no image is without a place.

A shape that is drawn while shapes are trimmed together waits in as many copies as a repeater makes
of it, or in one. Each copy is in the coordinates of the document, with the opacity, the paints and
the cover of the brush by then, and is taken by exactly one trim, with the window that the shape
itself holds. It is a part of an outline that the trim has taken, and that outline has the look that
the copy was drawn with. Trims take nothing else.

Each trim of the ledger is one that the calls carry out on the canvas. It takes what the canvas has in
its queue behind the mark, measures its window over all of that together, and paints what is left of
each outline with the paints that have waited with it. What it has painted is not painted over.

Proof: layers leave a ledger on which no trim is in force as it was, so nothing waits at the end,
and what has been taken is a permutation of what has been queued. -/
theorem queued_shapes_settled (settings : Trim.Settings) (document : Document S)
    (scene : Scene S P) (reachable : Reachable settings document scene) (frame : S) :
    let calls := (scene.update frame).calls
    let final := Canvas.ofCalls calls
    let clearings := (Ledger.ofCalls calls).clearings
    let settled := clearings.flatMap Clearing.deposits
    (final.queue = [] ∧ final.saved = [] ∧ final.trimming = {} ∧ final.picture = none) ∧
    clearings.map Clearing.shown = alongside Canvas.slices calls ∧
    settled.Perm (alongside Canvas.deposits calls) ∧
    (∀ number head shape, calls[number]? = some (.visit head (.shape shape)) →
      let before := Canvas.ofCalls (calls.take number)
      before.trimming.current = .simultaneous → shape.path ≠ [] →
      ∀ copy place opacity,
        (before.brush.copies.getD [(Affine.identity, 1)])[copy]? = some (place, opacity) →
        let placed := before.brush.placed * place
        let factor : S := narrow (Scalar.sqrt (Scalar.abs placed.determinant))
        let queued : Queued S P :=
          { path := shape.path.place placed
            opacity := before.brush.opacity * opacity
            paints := before.brush.paints.map (Paint.scaled factor)
            cover := before.brush.cover }
        (settled.map Deposit.key).count (number, copy) = 1 ∧
        ∃ clearing ∈ clearings, shape.trim = some clearing.window ∧
          ∃ pile ∈ clearing.slice, ⟨number, copy, shape.trim, queued⟩ ∈ pile.made ∧
            queued.path <:+: pile.shown.path ∧ pile.shown.Alike queued) ∧
    (∀ deposit ∈ settled, ∃ head shape, calls[deposit.call]? = some (.visit head (.shape shape)) ∧
      let before := Canvas.ofCalls (calls.take deposit.call)
      shape.path ≠ [] ∧ before.trimming.current = .simultaneous ∧ deposit.trim = shape.trim ∧
        deposit.copy < (before.brush.copies.getD [(Affine.identity, 1)]).length) ∧
    ∀ clearing ∈ clearings, ∃ head,
      calls[clearing.call]? = some (.visit head (.trim clearing.window)) ∧
      let before := Canvas.ofCalls (calls.take clearing.call)
      let after := Canvas.ofCalls (calls.take (clearing.call + 1))
      let own := clearing.slice.map Pile.shown
      let left := clearing.window.cutTogether (own.map Queued.path)
      own = before.queue.drop before.brush.mark ∧
      after.queue = before.queue.take before.brush.mark ∧ left.length = own.length ∧
      after.elements = before.elements ++
        (List.zipWith (fun shape left => if left.isEmpty then [] else shape.paints.map fun paint =>
          .outline left Affine.identity shape.opacity paint shape.cover) own left).flatten ∧
      after.elements <+: final.elements := by
  intro calls final clearings settled
  obtain ⟨layers, phrase, bracketed⟩ := Call.scene_phrase reachable frame
  have records := Ledger.of_calls_records calls
  have ended := Ledger.layers_settle phrase
  rw [← bracketed] at ended
  obtain ⟨waiting, saved, trimming, picture, matched⟩ := ended
  have conserved : settled.Perm (alongside Canvas.deposits calls) := by
    have conserved := records.conserved
    rw [waiting, List.flatMap_nil, List.append_nil] at conserved
    exact conserved
  refine ⟨?_, records.faithful, conserved, ?_, ?_, ?_⟩
  · have queue := records.mirrored
    rw [waiting, records.canvas] at queue
    rw [records.canvas] at saved trimming picture
    exact ⟨queue.symm, saved, trimming, picture⟩
  · intro number head shape found before state outlined copy place opacity copied placed factor
      queued
    have listed : (before.brush.queued shape.path)[copy]? = some queued := by
      rw [Brush.queued, Brush.instances, List.getElem?_map, copied]
      rfl
    have deposited : (⟨number, copy, shape.trim, queued⟩ : Deposit S P) ∈
        alongside Canvas.deposits calls :=
      (mem_alongside _ _ _).mpr ⟨number, _, found, (Canvas.mem_deposits _ _ _ _).mpr
        ⟨head, shape, rfl, outlined, state, rfl, rfl, listed⟩⟩
    have taken := conserved.mem_iff.mpr deposited
    constructor
    · have distinct : (settled.map Deposit.key).Nodup :=
        (conserved.map Deposit.key).nodup_iff.mpr (deposits_distinct calls)
      exact List.count_eq_one_of_mem distinct (List.mem_map_of_mem taken)
    · obtain ⟨clearing, inClearings, inside⟩ := List.mem_flatMap.mp taken
      obtain ⟨pile, inSlice, made⟩ := List.mem_flatMap.mp inside
      have sound : pile.Sound := records.sound pile (List.mem_append_left _
        (List.mem_flatMap.mpr ⟨clearing, inClearings, inSlice⟩))
      refine ⟨clearing, inClearings, matched clearing inClearings _ inside, pile, inSlice, made, ?_,
        sound.look _ made⟩
      rw [sound.path]
      obtain ⟨front, back, parts⟩ := List.append_of_mem made
      exact ⟨front.flatMap fun deposit => deposit.queued.path,
        back.flatMap fun deposit => deposit.queued.path, by simp [parts]⟩
  · intro deposit taken
    obtain ⟨number, call, found, given⟩ := (mem_alongside _ _ _).mp (conserved.mem_iff.mp taken)
    obtain ⟨head, shape, rfl, outlined, state, rfl, trim, listed⟩ :=
      (Canvas.mem_deposits _ _ _ _).mp given
    refine ⟨head, shape, found, outlined, state, trim, ?_⟩
    obtain ⟨inside, -⟩ := List.getElem?_eq_some_iff.mp listed
    rwa [Brush.queued, List.length_map] at inside
  · intro clearing member
    obtain ⟨head, found, slice⟩ := records.clearing_called member
    have next := Canvas.of_calls_next found
    refine ⟨head, found, slice, ?_, ?_, ?_, Canvas.elements_prefix calls _⟩
    · rw [next]
      rfl
    · rw [cut_together_length, List.length_map]
    · rw [next, slice]
      rfl

/-- The ellipse under two trims waits in one copy, which is taken once, by one of the trims that the
calls carry out. -/
theorem ellipse_settled :
    let scene : Scene Float32 Float := Scene.ofDocument {} trimmedTwice
    let calls := (scene.update 12).calls
    let clearings := (Ledger.ofCalls calls).clearings
    ((clearings.flatMap Clearing.deposits).map Deposit.key).count (10, 0) = 1 ∧
      ∃ clearing ∈ clearings, (10, 0) ∈ clearing.deposits.map Deposit.key ∧
        ∃ head, calls[clearing.call]? = some (.visit head (.trim clearing.window)) := by
  intro scene calls clearings
  let before := Canvas.ofCalls (calls.take 10)
  obtain ⟨-, -, -, each, -, painted⟩ := queued_shapes_settled {} trimmedTwice scene .loaded 12
  have drawn : ((calls[10]?.bind Call.shape?).map fun entry => entry.2.path.isEmpty) =
      some false := by decide +kernel
  have state : before.trimming.current = .simultaneous := by decide +kernel
  have single : before.brush.copies = none := Option.isNone_iff_eq_none.mp (by decide +kernel)
  have alone : (before.brush.copies.getD [(Affine.identity, 1)])[0]? =
      some (Affine.identity, 1) := by rw [single]; rfl
  cases found : calls[10]? with
  | none => simp [found] at drawn
  | some call =>
    rw [found] at drawn
    cases call with
    | visit head visit =>
      cases visit with
      | shape shape =>
        have outlined : shape.path ≠ [] := by
          rintro empty
          simp [Call.shape?, empty] at drawn
        obtain ⟨once, clearing, member, -, pile, inside, made, -⟩ :=
          each 10 head shape found state outlined 0 _ _ alone
        obtain ⟨trimHead, called, -⟩ := painted clearing member
        have taken := List.mem_flatMap.mpr ⟨pile, inside, made⟩
        exact ⟨once, clearing, member, List.mem_map_of_mem (f := Deposit.key) taken, trimHead, called⟩
      | _ => simp [Call.shape?] at drawn
    | _ => simp [Call.shape?] at drawn

end VectorMotion.Render
