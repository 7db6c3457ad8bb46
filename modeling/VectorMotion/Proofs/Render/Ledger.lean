import Mathlib.Data.List.Basic
import Mathlib.Data.List.Induction
import Mathlib.Data.List.Nodup
import VectorMotion.Render.Canvas

/-!
# A ledger of the queue

Shapes that wait for a trim lose their identity: those that follow each other in one look become one
outline. To tell what becomes of each, a ledger is kept beside a canvas. It notes every copy of a
shape that goes into the queue as a deposit, keeps with every waiting outline the deposits that it
is made of, and notes for every trim that is carried out which outlines it has taken from the queue.

The ledger decides nothing. Its outlines are those of the canvas, one for one, and the law is that
the deposits taken and the deposits waiting are together a permutation of all that have been made,
after every call. Whether all are taken, and by which trim, depends on the order of the calls and is
not told here.
-/

namespace VectorMotion.Render

open Scene

variable {S P : Type}

/-- One copy of a shape that has gone into the queue. -/
structure Deposit (S P : Type) where
  /-- The number of the call that has drawn the shape. -/
  call : Nat
  /-- The number of the copy among those of the shape. -/
  copy : Nat
  /-- The trim of the shape. -/
  trim : Option (Trim.Window S)
  /-- The copy as it was to be queued. -/
  queued : Queued S P

/-- A deposit is known by its call and copy. -/
def Deposit.key (deposit : Deposit S P) : Nat × Nat := (deposit.call, deposit.copy)

/-- A waiting outline with the deposits that it is made of. -/
structure Pile (S P : Type) where
  shown : Queued S P
  made : List (Deposit S P)

/-- A trim that has been carried out, with the outlines that it has taken from the queue. -/
structure Clearing (S P : Type) where
  /-- The number of the call that has carried it out. -/
  call : Nat
  window : Trim.Window S
  slice : List (Pile S P)

/-- A canvas with its ledger. -/
structure Ledger (S P : Type) where
  canvas : Canvas S P
  /-- How many calls have been answered. -/
  count : Nat
  waiting : List (Pile S P)
  clearings : List (Clearing S P)

variable [Scalar S]

/-- Two waiting outlines are alike if one look can stand for the other: opacity, paints and cover are
the same, or no comparison tells them apart. -/
def Queued.Alike (first second : Queued S P) : Prop :=
  (first.opacity = second.opacity ∧ first.paints = second.paints ∧ first.cover = second.cover) ∨
    ((first.opacity == second.opacity) = true ∧ (first.paints == second.paints) = true ∧
      (first.cover == second.cover) = true)

/-- Waiting outlines that the canvas takes to look the same are alike. -/
theorem Queued.alike_of_same_look {first second : Queued S P}
    (same : first.sameLook second = true) : first.Alike second := by
  simp only [sameLook, Bool.and_eq_true, and_assoc] at same
  exact .inr same

/-- An outline is that of its deposits, one after the other, and looks like each of them. -/
structure Pile.Sound (pile : Pile S P) : Prop where
  path : pile.shown.path = pile.made.flatMap fun deposit => deposit.queued.path
  look : ∀ deposit ∈ pile.made, pile.shown.Alike deposit.queued

namespace Pile

/-- The deposit becomes an outline of its own, or a part of the last one, as it is queued. -/
def put (mark : Nat) (waiting : List (Pile S P)) (deposit : Deposit S P) : List (Pile S P) :=
  match waiting.getLast? with
  | some last =>
    if mark < waiting.length && last.shown.sameLook deposit.queued then
      waiting.dropLast ++
        [{ shown := { last.shown with path := last.shown.path ++ deposit.queued.path }
           made := last.made ++ [deposit] }]
    else waiting ++ [⟨deposit.queued, [deposit]⟩]
  | none => waiting ++ [⟨deposit.queued, [deposit]⟩]

/-- What is put down goes behind everything, or into the last outline behind the mark. -/
theorem put_cases (mark : Nat) (waiting : List (Pile S P)) (deposit : Deposit S P) :
    (∃ front last, waiting = front ++ [last] ∧ mark ≤ front.length ∧
      last.shown.sameLook deposit.queued = true ∧
      put mark waiting deposit = front ++
        [{ shown := { last.shown with path := last.shown.path ++ deposit.queued.path }
           made := last.made ++ [deposit] }]) ∨
    put mark waiting deposit = waiting ++ [⟨deposit.queued, [deposit]⟩] := by
  rcases List.eq_nil_or_concat' waiting with rfl | ⟨front, last, rfl⟩
  · exact .inr rfl
  · by_cases joins : mark ≤ front.length ∧ last.shown.sameLook deposit.queued = true
    · obtain ⟨behind, same⟩ := joins
      refine .inl ⟨front, last, by simp, behind, same, ?_⟩
      simp [put, same, Nat.lt_succ_of_le behind]
    · right
      simp only [put, List.getLast?_concat]
      refine if_neg fun condition => joins ?_
      simpa [Nat.lt_succ_iff] using condition

/-- The outlines are those of the queue. -/
theorem put_shown (mark : Nat) (waiting : List (Pile S P)) (deposit : Deposit S P) :
    (put mark waiting deposit).map shown =
      Queued.enqueue mark (waiting.map shown) deposit.queued := by
  rcases List.eq_nil_or_concat' waiting with rfl | ⟨front, last, rfl⟩
  · rfl
  · simp only [put, Queued.enqueue, List.map_append, List.getLast?_concat, List.map_cons,
      List.map_nil, List.length_append, List.length_map, List.length_cons, List.length_nil,
      List.dropLast_concat]
    split <;> simp

/-- A deposit comes behind all that have been made. -/
theorem put_made (mark : Nat) (waiting : List (Pile S P)) (deposit : Deposit S P) :
    (put mark waiting deposit).flatMap made = waiting.flatMap made ++ [deposit] := by
  rcases put_cases mark waiting deposit with ⟨front, last, rfl, -, -, joined⟩ | apart
  · simp [joined]
  · simp [apart]

/-- What waits up to the mark is not touched. -/
theorem put_below (mark : Nat) (waiting : List (Pile S P)) (deposit : Deposit S P)
    (below : mark ≤ waiting.length) :
    (put mark waiting deposit).take mark = waiting.take mark ∧
      mark ≤ (put mark waiting deposit).length := by
  rcases put_cases mark waiting deposit with ⟨front, last, rfl, behind, -, joined⟩ | apart
  · rw [joined, List.take_append_of_le_length behind, List.take_append_of_le_length behind]
    exact ⟨rfl, by simp; omega⟩
  · rw [apart, List.take_append_of_le_length below]
    exact ⟨rfl, by simp; omega⟩

/-- Outlines stay those of their deposits. -/
theorem put_sound (mark : Nat) (waiting : List (Pile S P)) (deposit : Deposit S P)
    (sound : ∀ pile ∈ waiting, pile.Sound) : ∀ pile ∈ put mark waiting deposit, pile.Sound := by
  intro pile member
  rcases put_cases mark waiting deposit with ⟨front, last, rfl, -, same, joined⟩ | apart
  · rw [joined, List.mem_append, List.mem_singleton] at member
    rcases member with earlier | rfl
    · exact sound pile (List.mem_append_left _ earlier)
    · obtain ⟨path, look⟩ := sound last (List.mem_append_right _ (List.mem_singleton.mpr rfl))
      constructor
      · simp [path]
      · intro made inside
        rcases List.mem_append.mp inside with old | new
        · exact look made old
        · rw [List.mem_singleton.mp new]
          exact Queued.alike_of_same_look same
  · rw [apart, List.mem_append, List.mem_singleton] at member
    rcases member with earlier | rfl
    · exact sound pile earlier
    · constructor
      · simp
      · intro made inside
        rw [List.mem_singleton.mp inside]
        exact .inl ⟨rfl, rfl, rfl⟩

/-- Putting down several deposits does to the waiting outlines what queueing them does. -/
theorem put_all_shown (mark : Nat) (waiting : List (Pile S P)) (deposits : List (Deposit S P)) :
    (deposits.foldl (put mark) waiting).map shown =
      (deposits.map Deposit.queued).foldl (Queued.enqueue mark) (waiting.map shown) := by
  induction deposits generalizing waiting with
  | nil => rfl
  | cons first rest inductionHypothesis =>
    rw [List.foldl_cons, inductionHypothesis, put_shown]
    rfl

/-- Putting shapes into the ledger adds them behind what waits in it. -/
theorem put_all_made (mark : Nat) (waiting : List (Pile S P)) (deposits : List (Deposit S P)) :
    (deposits.foldl (put mark) waiting).flatMap made = waiting.flatMap made ++ deposits := by
  induction deposits generalizing waiting with
  | nil => simp
  | cons first rest inductionHypothesis =>
    rw [List.foldl_cons, inductionHypothesis, put_made, List.append_assoc]
    rfl

/-- The piles below the mark are left as they were. -/
theorem put_all_below (mark : Nat) (waiting : List (Pile S P)) (deposits : List (Deposit S P))
    (below : mark ≤ waiting.length) :
    (deposits.foldl (put mark) waiting).take mark = waiting.take mark ∧
      mark ≤ (deposits.foldl (put mark) waiting).length := by
  induction deposits generalizing waiting with
  | nil => exact ⟨rfl, below⟩
  | cons first rest inductionHypothesis =>
    obtain ⟨kept, further⟩ := put_below mark waiting first below
    obtain ⟨keptOn, furtherOn⟩ := inductionHypothesis (put mark waiting first) further
    exact ⟨keptOn.trans kept, furtherOn⟩

/-- All deposits come behind the mark, after those that are there. -/
theorem put_all_behind (mark : Nat) (waiting : List (Pile S P)) (deposits : List (Deposit S P))
    (below : mark ≤ waiting.length) :
    ((deposits.foldl (put mark) waiting).drop mark).flatMap made =
      (waiting.drop mark).flatMap made ++ deposits := by
  have parts (piles : List (Pile S P)) :
      piles.flatMap made = (piles.take mark).flatMap made ++ (piles.drop mark).flatMap made := by
    rw [← List.flatMap_append, List.take_append_drop]
  have whole := put_all_made mark waiting deposits
  rw [parts (deposits.foldl (put mark) waiting), (put_all_below mark waiting deposits below).1,
    parts waiting, List.append_assoc] at whole
  exact List.append_cancel_left whole

/-- Putting shapes into the ledger keeps every pile sound. -/
theorem put_all_sound (mark : Nat) (waiting : List (Pile S P)) (deposits : List (Deposit S P))
    (sound : ∀ pile ∈ waiting, pile.Sound) :
    ∀ pile ∈ deposits.foldl (put mark) waiting, pile.Sound := by
  induction deposits generalizing waiting with
  | nil => exact sound
  | cons first rest inductionHypothesis =>
    exact inductionHypothesis _ (put_sound mark waiting first sound)

end Pile

/-- The deposits that a trim has taken. -/
def Clearing.deposits (clearing : Clearing S P) : List (Deposit S P) :=
  clearing.slice.flatMap Pile.made

/-- A trim that has been carried out, as the canvas shows it. -/
def Clearing.shown (clearing : Clearing S P) : Nat × Trim.Window S × List (Queued S P) :=
  (clearing.call, clearing.window, clearing.slice.map Pile.shown)

variable [Scalar P] [Widen S P]

/-- What a call puts into the queue of a canvas. -/
def Canvas.deposits (number : Nat) (canvas : Canvas S P) : Call S P → List (Deposit S P)
  | .visit _ (.shape shape) =>
    if shape.path.isEmpty then []
    else if canvas.trimming.current == .simultaneous then
      (canvas.brush.queued shape.path).mapIdx fun copy queued => ⟨number, copy, shape.trim, queued⟩
    else []
  | _ => []

/-- The trim that a call carries out on a canvas, with what it takes from the queue. -/
def Canvas.slices (number : Nat) (canvas : Canvas S P) :
    Call S P → List (Nat × Trim.Window S × List (Queued S P))
  | .visit _ (.trim window) => [(number, window, canvas.queue.drop canvas.brush.mark)]
  | _ => []

/-- A deposit is one of the copies, in the look of its time, of a shape that has an outline and is
drawn while shapes are trimmed together. -/
theorem Canvas.mem_deposits (number : Nat) (canvas : Canvas S P) (call : Call S P)
    (deposit : Deposit S P) :
    deposit ∈ canvas.deposits number call ↔ ∃ head shape, call = .visit head (.shape shape) ∧
      shape.path ≠ [] ∧ canvas.trimming.current = .simultaneous ∧ deposit.call = number ∧
      deposit.trim = shape.trim ∧
      (canvas.brush.queued shape.path)[deposit.copy]? = some deposit.queued := by
  constructor
  · intro member
    unfold Canvas.deposits at member
    split at member
    next head shape =>
      split at member
      · simp at member
      next drawn =>
        split at member
        next state =>
          obtain ⟨copy, found⟩ := List.mem_iff_getElem?.mp member
          rw [List.getElem?_mapIdx, Option.map_eq_some_iff] at found
          obtain ⟨queued, found, rfl⟩ := found
          exact ⟨head, shape, rfl, fun none => drawn (List.isEmpty_iff.mpr none), eq_of_beq state,
            rfl, rfl, found⟩
        · simp at member
    · simp at member
  · rintro ⟨head, shape, rfl, drawn, state, rfl, trim, found⟩
    have outlined : shape.path.isEmpty = false := by
      simpa [List.isEmpty_eq_false_iff] using drawn
    simp only [Canvas.deposits, outlined, state, beq_self_eq_true, Bool.false_eq_true, ↓reduceIte]
    refine List.mem_iff_getElem?.mpr ⟨deposit.copy, ?_⟩
    rw [List.getElem?_mapIdx, found, ← trim]
    rfl

/-- The copies of a shape are numbered. -/
theorem Canvas.deposits_keys (number : Nat) (canvas : Canvas S P) (call : Call S P) :
    (canvas.deposits number call).map Deposit.key =
      (List.range (canvas.deposits number call).length).map fun copy => (number, copy) := by
  unfold Canvas.deposits
  split
  · split
    · rfl
    · split
      · exact List.ext_getElem (by simp) fun copy _ _ => by simp [Deposit.key]
      · rfl
  · rfl

variable [Measure P]

/-- What each of some calls gives, from its number, the canvas that it meets and the call itself. -/
def alongside {β : Type} (give : Nat → Canvas S P → Call S P → List β) (calls : List (Call S P)) :
    List β :=
  calls.zipIdx.flatMap fun (call, number) => give number (Canvas.ofCalls (calls.take number)) call

namespace Ledger

/-- The ledger of an empty canvas. -/
def empty : Ledger S P := { canvas := Canvas.empty, count := 0, waiting := [], clearings := [] }

/-- Answers one call on the canvas, and notes what it puts into the queue and takes from it. -/
def answer (ledger : Ledger S P) (call : Call S P) : Ledger S P :=
  let mark := ledger.canvas.brush.mark
  match call with
  | .visit _ (.trim window) =>
    { canvas := ledger.canvas.answer call
      count := ledger.count + 1
      waiting := ledger.waiting.take mark
      clearings := ledger.clearings ++ [⟨ledger.count, window, ledger.waiting.drop mark⟩] }
  | _ =>
    { canvas := ledger.canvas.answer call
      count := ledger.count + 1
      waiting := (ledger.canvas.deposits ledger.count call).foldl (Pile.put mark) ledger.waiting
      clearings := ledger.clearings }

/-- The ledger after some more calls. -/
def answerAll (ledger : Ledger S P) (calls : List (Call S P)) : Ledger S P :=
  calls.foldl answer ledger

/-- The ledger of a drawing of calls. -/
def ofCalls (calls : List (Call S P)) : Ledger S P := answerAll empty calls

/-- A call carries out a trim, or puts what it queues behind the mark; there is no more to it. -/
theorem answer_cases (ledger : Ledger S P) (call : Call S P) :
    (∃ head window, call = .visit head (.trim window) ∧
      (ledger.canvas.answer call).queue = ledger.canvas.queue.take ledger.canvas.brush.mark ∧
      ledger.answer call =
        { canvas := ledger.canvas.answer call
          count := ledger.count + 1
          waiting := ledger.waiting.take ledger.canvas.brush.mark
          clearings := ledger.clearings ++
            [⟨ledger.count, window, ledger.waiting.drop ledger.canvas.brush.mark⟩] }) ∨
    ((∀ number, ledger.canvas.slices number call = []) ∧
      (ledger.canvas.answer call).queue =
        ((ledger.canvas.deposits ledger.count call).map Deposit.queued).foldl
          (Queued.enqueue ledger.canvas.brush.mark) ledger.canvas.queue ∧
      ledger.answer call =
        { canvas := ledger.canvas.answer call
          count := ledger.count + 1
          waiting := (ledger.canvas.deposits ledger.count call).foldl
            (Pile.put ledger.canvas.brush.mark) ledger.waiting
          clearings := ledger.clearings }) := by
  cases call with
  | visit head visit =>
    cases visit with
    | trim window => exact .inl ⟨head, window, rfl, rfl, rfl⟩
    | shape shape =>
      refine .inr ⟨fun _ => rfl, ?_, rfl⟩
      have queued (number : Nat) (copies : List (Queued S P)) :
          (copies.mapIdx fun copy queued =>
            (⟨number, copy, shape.trim, queued⟩ : Deposit S P)).map Deposit.queued = copies :=
        List.ext_getElem? fun copy => by simp [Function.comp_def]
      simp only [Canvas.answer, Canvas.visit, Canvas.draw, Canvas.deposits]
      split
      · rfl
      · split
        · rw [queued]
        · rfl
    | transform transform =>
      refine .inr ⟨fun _ => rfl, ?_, rfl⟩
      simp only [Canvas.answer, Canvas.visit, Canvas.placePicture]
      split <;> rfl
    | _ => exact .inr ⟨fun _ => rfl, rfl, rfl⟩
  | restore =>
    refine .inr ⟨fun _ => rfl, ?_, rfl⟩
    simp only [Canvas.answer]
    split <;> rfl
  | _ => exact .inr ⟨fun _ => rfl, rfl, rfl⟩

/-- All deposits that trims have taken. -/
def settled (ledger : Ledger S P) : List (Deposit S P) := ledger.clearings.flatMap Clearing.deposits

/-- All outlines that are waiting or have been taken by a trim. -/
def piles (ledger : Ledger S P) : List (Pile S P) :=
  ledger.clearings.flatMap Clearing.slice ++ ledger.waiting

/-- A ledger is that of the calls: its canvas is the one that they draw, its outlines are those of
the queue and look like their deposits, its trims are those that the calls carry out, with what they
take, and what is taken and what waits is all that the calls have queued. -/
structure Records (ledger : Ledger S P) (calls : List (Call S P)) : Prop where
  canvas : ledger.canvas = Canvas.ofCalls calls
  count : ledger.count = calls.length
  mirrored : ledger.waiting.map Pile.shown = ledger.canvas.queue
  sound : ∀ pile ∈ ledger.piles, pile.Sound
  faithful : ledger.clearings.map Clearing.shown = alongside Canvas.slices calls
  conserved : (ledger.settled ++ ledger.waiting.flatMap Pile.made).Perm
    (alongside Canvas.deposits calls)

/-- The outlines stay those of the queue. -/
theorem answer_mirrored (ledger : Ledger S P) (call : Call S P)
    (mirrored : ledger.waiting.map Pile.shown = ledger.canvas.queue) :
    (ledger.answer call).waiting.map Pile.shown = (ledger.answer call).canvas.queue := by
  rcases ledger.answer_cases call with ⟨head, window, rfl, queue, answered⟩ | ⟨-, queue, answered⟩
  · rw [answered, queue, List.map_take, mirrored]
  · rw [answered, queue, Pile.put_all_shown, mirrored]

/-- Outlines stay those of their deposits, waiting or taken. -/
theorem answer_sound (ledger : Ledger S P) (call : Call S P)
    (sound : ∀ pile ∈ ledger.piles, pile.Sound) :
    ∀ pile ∈ (ledger.answer call).piles, pile.Sound := by
  intro pile member
  rcases ledger.answer_cases call with ⟨head, window, rfl, -, answered⟩ | ⟨-, -, answered⟩
  · have still : pile ∈ ledger.piles := by
      simp only [answered, piles, List.flatMap_append, List.flatMap_singleton,
        List.append_assoc, List.mem_append] at member ⊢
      rcases member with taken | slice | kept
      · exact .inl taken
      · exact .inr (List.mem_of_mem_drop slice)
      · exact .inr (List.mem_of_mem_take kept)
    exact sound pile still
  · simp only [answered, piles, List.mem_append] at member
    rcases member with taken | waits
    · exact sound pile (List.mem_append_left _ taken)
    · exact Pile.put_all_sound _ _ _
        (fun other inside => sound other (List.mem_append_right _ inside)) pile waits

/-- A trim moves deposits from those that wait to those that are taken; any other call adds its own
to those that wait. -/
theorem answer_conserved (ledger : Ledger S P) (call : Call S P) :
    ((ledger.answer call).settled ++ (ledger.answer call).waiting.flatMap Pile.made).Perm
      (ledger.settled ++ ledger.waiting.flatMap Pile.made ++
        ledger.canvas.deposits ledger.count call) := by
  rcases ledger.answer_cases call with ⟨head, window, rfl, -, answered⟩ | ⟨-, -, answered⟩
  · have parts : ledger.waiting.flatMap Pile.made =
        (ledger.waiting.take ledger.canvas.brush.mark).flatMap Pile.made ++
          (ledger.waiting.drop ledger.canvas.brush.mark).flatMap Pile.made := by
      rw [← List.flatMap_append, List.take_append_drop]
    simp only [answered, settled, List.flatMap_append, List.flatMap_singleton, Clearing.deposits,
      parts, Canvas.deposits, List.append_nil, List.append_assoc]
    exact List.perm_append_comm.append_left _
  · simp only [answered, settled, Pile.put_all_made, List.append_assoc]
    exact List.Perm.refl _

/-- A call is noted as a trim exactly when it carries one out. -/
theorem answer_faithful (ledger : Ledger S P) (call : Call S P)
    (mirrored : ledger.waiting.map Pile.shown = ledger.canvas.queue) :
    (ledger.answer call).clearings.map Clearing.shown =
      ledger.clearings.map Clearing.shown ++ ledger.canvas.slices ledger.count call := by
  rcases ledger.answer_cases call with ⟨head, window, rfl, -, answered⟩ | ⟨noSlice, -, answered⟩
  · simp [answered, Clearing.shown, Canvas.slices, List.map_drop, mirrored]
  · simp [answered, noSlice]

end Ledger

/-- One more call gives what it gives on the canvas of those before it. -/
theorem alongside_concat {β : Type} (give : Nat → Canvas S P → Call S P → List β)
    (calls : List (Call S P)) (call : Call S P) :
    alongside give (calls ++ [call]) =
      alongside give calls ++ give calls.length (Canvas.ofCalls calls) call := by
  have earlier : ∀ entry ∈ calls.zipIdx,
      give entry.2 (Canvas.ofCalls ((calls ++ [call]).take entry.2)) entry.1 =
        give entry.2 (Canvas.ofCalls (calls.take entry.2)) entry.1 := by
    intro entry member
    have before : entry.2 < calls.length := by
      have bound := List.snd_lt_add_of_mem_zipIdx member
      omega
    rw [List.take_append_of_le_length (Nat.le_of_lt before)]
  simp only [alongside, List.zipIdx_append, List.flatMap_append]
  rw [List.flatMap_congr earlier]
  simp

/-- A call gives something exactly if it does so at its own number. -/
theorem mem_alongside {β : Type} (give : Nat → Canvas S P → Call S P → List β)
    (calls : List (Call S P)) (given : β) :
    given ∈ alongside give calls ↔ ∃ number call, calls[number]? = some call ∧
      given ∈ give number (Canvas.ofCalls (calls.take number)) call := by
  simp only [alongside, List.mem_flatMap, Prod.exists]
  constructor
  · rintro ⟨call, number, member, inside⟩
    exact ⟨number, call, List.mem_zipIdx_iff_getElem?.mp member, inside⟩
  · rintro ⟨number, call, found, inside⟩
    exact ⟨call, number, List.mem_zipIdx_iff_getElem?.mpr found, inside⟩

/-- No two deposits have the same call and copy.

Proof: add the calls one by one. What a call deposits bears its own number, and all before bear
lower ones. -/
theorem deposits_distinct (calls : List (Call S P)) :
    ((alongside Canvas.deposits calls).map Deposit.key).Nodup := by
  induction calls using List.reverseRecOn with
  | nil => exact List.nodup_nil
  | append_singleton calls call inductionHypothesis =>
    rw [alongside_concat, List.map_append, Canvas.deposits_keys]
    refine List.nodup_append.mpr ⟨inductionHypothesis, ?_, ?_⟩
    · exact List.nodup_range.map fun first second same => (Prod.mk.inj same).2
    · intro earlier inEarlier later inLater same
      obtain ⟨deposit, made, rfl⟩ := List.mem_map.mp inEarlier
      obtain ⟨copy, -, rfl⟩ := List.mem_map.mp inLater
      obtain ⟨number, other, found, member⟩ := (mem_alongside _ _ _).mp made
      obtain ⟨-, -, -, -, -, numbered, -, -⟩ := (Canvas.mem_deposits _ _ _ _).mp member
      have before : number < calls.length := (List.getElem?_eq_some_iff.mp found).1
      have last : deposit.call = calls.length := (Prod.mk.inj same).1
      omega

/-- The ledger of a drawing records its calls. -/
theorem Ledger.of_calls_records (calls : List (Call S P)) :
    (Ledger.ofCalls calls).Records calls := by
  induction calls using List.reverseRecOn with
  | nil =>
    have none : (Ledger.ofCalls ([] : List (Call S P))).piles = [] := rfl
    exact ⟨rfl, rfl, rfl, by simp [none], rfl, List.Perm.refl _⟩
  | append_singleton calls call inductionHypothesis =>
    obtain ⟨canvas, count, mirrored, sound, faithful, conserved⟩ := inductionHypothesis
    have next : Ledger.ofCalls (calls ++ [call]) = (Ledger.ofCalls calls).answer call :=
      List.foldl_concat ..
    have answered : ((Ledger.ofCalls calls).answer call).canvas =
        (Ledger.ofCalls calls).canvas.answer call ∧
        ((Ledger.ofCalls calls).answer call).count = (Ledger.ofCalls calls).count + 1 := by
      rcases (Ledger.ofCalls calls).answer_cases call with ⟨_, _, -, -, same⟩ | ⟨-, -, same⟩ <;>
        simp [same]
    rw [next]
    constructor
    · rw [answered.1, canvas]
      exact (List.foldl_concat ..).symm
    · rw [answered.2, count, List.length_append, List.length_singleton]
    · exact Ledger.answer_mirrored _ _ mirrored
    · exact Ledger.answer_sound _ _ sound
    · rw [Ledger.answer_faithful _ _ mirrored, faithful, canvas, count, alongside_concat]
    · rw [alongside_concat, ← canvas, ← count]
      exact (Ledger.answer_conserved _ _).trans (conserved.append_right _)

end VectorMotion.Render
