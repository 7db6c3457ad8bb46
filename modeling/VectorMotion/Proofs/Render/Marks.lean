import Mathlib.Data.List.Flatten
import VectorMotion.Proofs.Render.Settlement

/-!
# Marks in the queue

Every container that has begun and not ended has a mark in the queue: so much was waiting when it
began. The marks of containers that stand in each other are in ascending order, and what waits
behind the mark of one is what has come since it began. So a container that carries out a trim takes
the shapes that have been drawn in it, and in the order in which they have been drawn; what it
leaves has been waiting before it began.

Calls are told apart by their numbers. How many containers are open when a call comes tells which of
them have been open since another call.
-/

namespace VectorMotion.Render

open Scene

variable {S P : Type}

section Places

variable [Scalar S]

namespace Pile

/-- What is put down comes into an outline behind the mark, and what has waited keeps its place. -/
theorem put_places (mark : Nat) (waiting : List (Pile S P)) (added : Deposit S P)
    (below : mark ≤ waiting.length) (place : Nat) (pile : Pile S P)
    (found : (put mark waiting added)[place]? = some pile)
    (deposit : Deposit S P) (made : deposit ∈ pile.made) :
    (∃ before, waiting[place]? = some before ∧ deposit ∈ before.made) ∨
      (deposit = added ∧ mark ≤ place) := by
  -- Whatever `put` has left in front of the last outline has been there before.
  have last (front : List (Pile S P)) (other : Pile S P)
      (placed : (front ++ [other])[place]? = some pile) :
      front[place]? = some pile ∨ (place = front.length ∧ pile = other) := by
    rcases Nat.lt_or_ge place front.length with inFront | behind
    · exact .inl (by rwa [List.getElem?_append_left inFront] at placed)
    · rw [List.getElem?_append_right behind, List.getElem?_singleton] at placed
      split at placed
      · exact .inr ⟨by omega, (Option.some.inj placed).symm⟩
      · cases placed
  rcases put_cases mark waiting added with ⟨front, other, rfl, behind, -, joined⟩ | apart
  · rw [joined] at found
    rcases last _ _ found with inFront | ⟨rfl, rfl⟩
    · exact .inl ⟨pile, List.getElem?_append_left
        (List.getElem?_eq_some_iff.mp inFront).1 ▸ inFront, made⟩
    · rcases List.mem_append.mp made with kept | new
      · exact .inl ⟨other, by simp, kept⟩
      · exact .inr ⟨List.mem_singleton.mp new, behind⟩
  · rw [apart] at found
    rcases last _ _ found with inFront | ⟨rfl, rfl⟩
    · exact .inl ⟨pile, inFront, made⟩
    · exact .inr ⟨List.mem_singleton.mp made, below⟩

/-- What lies in a pile lay there before, or has been put there at the mark or above it. -/
theorem put_all_places (mark : Nat) (waiting : List (Pile S P)) (deposits : List (Deposit S P))
    (below : mark ≤ waiting.length) (place : Nat) (pile : Pile S P)
    (found : (deposits.foldl (put mark) waiting)[place]? = some pile)
    (deposit : Deposit S P) (made : deposit ∈ pile.made) :
    (∃ before, waiting[place]? = some before ∧ deposit ∈ before.made) ∨
      (deposit ∈ deposits ∧ mark ≤ place) := by
  induction deposits generalizing waiting with
  | nil => exact .inl ⟨pile, found, made⟩
  | cons first rest inductionHypothesis =>
    rcases inductionHypothesis _ (put_below mark waiting first below).2 found with
      ⟨before, placed, old⟩ | ⟨new, behind⟩
    · rcases put_places mark waiting first below place before placed deposit old with
        there | ⟨rfl, behind⟩
      · exact .inl there
      · exact .inr ⟨List.mem_cons_self, behind⟩
    · exact .inr ⟨List.mem_cons_of_mem _ new, behind⟩

/-- Nothing is taken from the queue when something is put down. -/
theorem put_all_grows (mark : Nat) (waiting : List (Pile S P)) (deposits : List (Deposit S P)) :
    waiting.length ≤ (deposits.foldl (put mark) waiting).length := by
  induction deposits generalizing waiting with
  | nil => exact Nat.le_refl _
  | cons first rest inductionHypothesis =>
    have once : waiting.length ≤ (put mark waiting first).length := by
      rcases put_cases mark waiting first with ⟨front, last, rfl, -, -, joined⟩ | apart
      · simp [joined]
      · simp [apart]
    exact Nat.le_trans once (inductionHypothesis _)

end Pile

end Places

variable [Scalar S] [Scalar P] [Widen S P] [Measure P]

namespace Call

/-- How many containers have begun and not ended when a call comes. -/
def depth (calls : List (Call S P)) (number : Nat) : Nat :=
  (Canvas.ofCalls (calls.take number)).saved.length

/-- Whether a call draws a shape while shapes are trimmed together. -/
def Waits (calls : List (Call S P)) (number : Nat) : Prop :=
  (∃ head shape, calls[number]? = some (.visit head (.shape shape))) ∧
    (Canvas.ofCalls (calls.take number)).trimming.current = .simultaneous

/-- Whether a call carries out a trim. -/
def Trims (calls : List (Call S P)) (number : Nat) : Prop :=
  ∃ head window, calls[number]? = some (.visit head (.trim window))

/-- Whether the container in which one call stands has been open since another. -/
def Holds (calls : List (Call S P)) (finish start : Nat) : Prop :=
  ∀ number, start ≤ number → number ≤ finish → depth calls finish ≤ depth calls number

end Call

/-- The marks of the containers that have not ended, the innermost first. -/
def Canvas.marks (canvas : Canvas S P) : List Nat :=
  canvas.brush.mark :: canvas.saved.map Brush.mark

/-- The marks change only where a container begins or ends. -/
theorem Canvas.answer_marks (canvas : Canvas S P) (call : Call S P) :
    (call = .save ∧ (canvas.answer call).marks = canvas.queue.length :: canvas.marks) ∨
    (call = .restore ∧ ∃ mark, canvas.marks = mark :: (canvas.answer call).marks) ∨
    (canvas.answer call).marks = canvas.marks := by
  cases call with
  | save => exact .inl ⟨rfl, rfl⟩
  | restore =>
    cases last : canvas.saved with
    | nil => exact .inr (.inr (by simp only [answer, last]))
    | cons brush saved =>
      exact .inr (.inl ⟨rfl, canvas.brush.mark, by simp [marks, answer, last]⟩)
  | visit head visit =>
    right; right
    cases visit with
    | shape shape =>
      obtain ⟨brush, saved, -⟩ := canvas.draw_kept shape.path
      simp only [marks, answer, Canvas.visit, brush, saved]
    | transform transform =>
      simp only [marks, answer, Canvas.visit, placePicture]
      split <;> rfl
    | _ => rfl
  | _ => exact .inr (.inr rfl)

/-- What waits behind the mark of a container has come since the container began, and all that has
come since waits behind it. The container whose mark stands before some others is as deep as these
are many. -/
def Inside (calls : List (Call S P)) (count : Nat) (marks : List Nat)
    (waiting : List (Pile S P)) : Prop :=
  ∀ inner mark outer, marks = inner ++ mark :: outer →
    ∀ place pile, waiting[place]? = some pile → ∀ deposit ∈ pile.made,
      (mark ≤ place ↔ ∀ number, deposit.call ≤ number → number ≤ count →
        outer.length ≤ Call.depth calls number)

/-- What is known of the queue when a call comes. -/
structure Marked (calls : List (Call S P)) (count : Nat) (ledger : Ledger S P) : Prop where
  canvas : ledger.canvas = Canvas.ofCalls (calls.take count)
  numbered : ledger.count = count
  mirrored : ledger.waiting.map Pile.shown = ledger.canvas.queue
  below : ledger.canvas.brush.mark ≤ ledger.waiting.length
  descending : ledger.canvas.marks.Pairwise (· ≥ ·)
  inside : Inside calls count ledger.canvas.marks ledger.waiting
  ordered : (ledger.waiting.flatMap Pile.made).Pairwise fun first second =>
    first.call ≤ second.call
  early : ∀ deposit ∈ ledger.waiting.flatMap Pile.made, deposit.call < count
  waits : ∀ deposit ∈ ledger.waiting.flatMap Pile.made, Call.Waits calls deposit.call ∧
    ∀ between, deposit.call < between → between < count → Call.Trims calls between →
      ¬ Call.Holds calls between deposit.call

/-- Nothing that has come is forgotten while the containers that have not ended are no more than
the marks. -/
theorem Inside.later {calls : List (Call S P)} {count : Nat} {marks : List Nat}
    {waiting : List (Pile S P)} (inside : Inside calls count marks waiting)
    (deep : marks.length ≤ Call.depth calls (count + 1) + 1) :
    Inside calls (count + 1) marks waiting := by
  intro inner mark outer split place pile found deposit made
  rw [inside inner mark outer split place pile found deposit made]
  have shallower : outer.length ≤ Call.depth calls (count + 1) := by
    rw [split, List.length_append, List.length_cons] at deep
    omega
  constructor
  · intro since number begun upTo
    rcases Nat.lt_or_ge count number with last | before
    · rwa [show number = count + 1 by omega]
    · exact since number begun before
  · exact fun since number begun upTo => since number begun (Nat.le_succ_of_le upTo)

/-- The queue while a container is open: what has come into it behind the mark has come since, and
so have the shapes that are drawn now. -/
theorem Inside.put {calls : List (Call S P)} {count mark : Nat} {marks : List Nat}
    {waiting : List (Pile S P)} {deposits : List (Deposit S P)}
    (inside : Inside calls count (mark :: marks) waiting)
    (descending : (mark :: marks).Pairwise (· ≥ ·)) (below : mark ≤ waiting.length)
    (depth : Call.depth calls count = marks.length)
    (now : ∀ deposit ∈ deposits, deposit.call = count) :
    Inside calls count (mark :: marks) (deposits.foldl (Pile.put mark) waiting) := by
  intro inner low outer split place pile found deposit made
  rcases Pile.put_all_places mark waiting deposits below place pile found deposit made with
    ⟨before, placed, old⟩ | ⟨new, behind⟩
  · exact inside inner low outer split place before placed deposit old
  · have lower : low ≤ mark := by
      have member : low ∈ mark :: marks := by rw [split]; simp
      rcases List.mem_cons.mp member with rfl | saved
      · exact Nat.le_refl _
      · exact List.rel_of_pairwise_cons descending saved
    have shallower : outer.length ≤ marks.length := by
      have lengths := congrArg List.length split
      simp only [List.length_cons, List.length_append] at lengths
      omega
    refine iff_of_true (Nat.le_trans lower behind) fun number begun upTo => ?_
    rw [now deposit new] at begun
    rwa [Nat.le_antisymm upTo begun, depth]

/-- What a call deposits bears its number, and is a shape that waits. -/
theorem Marked.deposits {calls : List (Call S P)} {count : Nat} {ledger : Ledger S P}
    (marked : Marked calls count ledger) {call : Call S P} (comes : calls[count]? = some call) :
    ∀ deposit ∈ ledger.canvas.deposits ledger.count call,
      deposit.call = count ∧ Call.Waits calls count := by
  intro deposit member
  obtain ⟨head, shape, rfl, -, state, numbered, -, -⟩ := (Canvas.mem_deposits _ _ _ _).mp member
  rw [marked.canvas] at state
  exact ⟨numbered.trans marked.numbered, ⟨head, shape, comes⟩, state⟩

/-- What waits behind the innermost mark has come since its container began. -/
theorem Marked.behind {calls : List (Call S P)} {count : Nat} {ledger : Ledger S P}
    (marked : Marked calls count ledger) (place : Nat) (pile : Pile S P)
    (found : ledger.waiting[place]? = some pile) (deposit : Deposit S P)
    (made : deposit ∈ pile.made) :
    ledger.canvas.brush.mark ≤ place ↔ Call.Holds calls count deposit.call := by
  have depth : Call.depth calls count = (ledger.canvas.saved.map Brush.mark).length := by
    rw [List.length_map, marked.canvas]
    rfl
  rw [marked.inside [] _ _ rfl place pile found deposit made, ← depth]
  rfl

/-- A container begins behind all that waits. -/
theorem Inside.opened {calls : List (Call S P)} {count : Nat} {marks : List Nat}
    {waiting : List (Pile S P)} (inside : Inside calls (count + 1) marks waiting)
    (depth : Call.depth calls count < marks.length)
    (early : ∀ deposit ∈ waiting.flatMap Pile.made, deposit.call < count) :
    Inside calls (count + 1) (waiting.length :: marks) waiting := by
  intro inner mark outer split place pile found deposit made
  cases inner with
  | cons first inner => exact inside inner mark outer (List.cons.inj split).2 place pile found _ made
  | nil =>
    obtain ⟨rfl, rfl⟩ := List.cons.inj split
    have here : place < waiting.length := (List.getElem?_eq_some_iff.mp found).1
    have before := early deposit
      (List.mem_flatMap.mpr ⟨pile, List.mem_of_getElem? found, made⟩)
    refine iff_of_false (Nat.not_le.mpr here) fun since => ?_
    have deep := since count (Nat.le_of_lt before) (Nat.le_succ count)
    omega

/-- A container ends. -/
theorem Inside.closed {calls : List (Call S P)} {count mark : Nat} {marks : List Nat}
    {waiting : List (Pile S P)} (inside : Inside calls count (mark :: marks) waiting) :
    Inside calls count marks waiting :=
  fun inner low outer split => inside (mark :: inner) low outer (by rw [split]; rfl)

/-- What a trim leaves waiting keeps its place. -/
theorem Inside.take {calls : List (Call S P)} {count : Nat} {marks : List Nat}
    {waiting : List (Pile S P)} (inside : Inside calls count marks waiting) (length : Nat) :
    Inside calls count marks (waiting.take length) := by
  intro inner mark outer split place pile found
  rw [List.getElem?_take] at found
  split at found
  · exact inside inner mark outer split place pile found
  · cases found

/-- A trim that is carried out leaves what has waited before its container began. -/
theorem Marked.trimmed {calls : List (Call S P)} {count : Nat} {ledger : Ledger S P}
    (marked : Marked calls count ledger) (deposit : Deposit S P)
    (left : deposit ∈ (ledger.waiting.take ledger.canvas.brush.mark).flatMap Pile.made) :
    deposit ∈ ledger.waiting.flatMap Pile.made ∧ ¬ Call.Holds calls count deposit.call := by
  obtain ⟨pile, member, made⟩ := List.mem_flatMap.mp left
  obtain ⟨place, found⟩ := List.mem_iff_getElem?.mp member
  rw [List.getElem?_take] at found
  split at found
  next before =>
    refine ⟨List.mem_flatMap.mpr ⟨pile, List.mem_of_getElem? found, made⟩, fun holds => ?_⟩
    have behind := (marked.behind place pile found deposit made).mpr holds
    omega
  · cases found

/-- The canvas that a call leaves is that of one more call. -/
theorem Marked.answered {calls : List (Call S P)} {count : Nat} {ledger : Ledger S P}
    (marked : Marked calls count ledger) {call : Call S P} (comes : calls[count]? = some call) :
    ledger.canvas.answer call = Canvas.ofCalls (calls.take (count + 1)) := by
  rw [marked.canvas, List.take_add_one, comes]
  exact (List.foldl_concat ..).symm

/-- A call that is no trim adds to the queue what it draws. -/
theorem Marked.put {calls : List (Call S P)} {count : Nat} {ledger : Ledger S P}
    (marked : Marked calls count ledger) {call : Call S P} (comes : calls[count]? = some call) :
    Inside calls (count + 1) (ledger.canvas.answer call).marks
      ((ledger.canvas.deposits ledger.count call).foldl (Pile.put ledger.canvas.brush.mark)
        ledger.waiting) := by
  have depth : Call.depth calls count = (ledger.canvas.saved.map Brush.mark).length := by
    rw [List.length_map, marked.canvas]
    rfl
  have depthNext : Call.depth calls (count + 1) + 1 =
      (ledger.canvas.answer call).marks.length := by
    rw [marked.answered comes]
    simp [Call.depth, Canvas.marks]
  have added := Inside.put marked.inside marked.descending marked.below depth
    fun deposit member => (marked.deposits comes deposit member).1
  rcases ledger.canvas.answer_marks call with
    ⟨rfl, marks⟩ | ⟨rfl, mark, marks⟩ | marks
  · have length : ledger.canvas.queue.length = ledger.waiting.length := by
      rw [← marked.mirrored, List.length_map]
    rw [marks] at depthNext ⊢
    rw [length]
    rw [List.length_cons] at depthNext
    refine Inside.opened (added.later ?_) ?_ marked.early
    · exact Nat.le_of_succ_le (Nat.le_of_eq depthNext.symm)
    · rw [depth]
      exact Nat.lt_succ_self _
  · refine Inside.later ?_ (Nat.le_of_eq depthNext.symm)
    obtain ⟨-, saved⟩ := List.cons.inj marks
    rw [saved] at added
    exact Inside.closed added
  · rw [marks] at depthNext ⊢
    exact added.later (Nat.le_of_eq depthNext.symm)

/-- The marks of a canvas stay in order, and all that waits stands behind the outer ones, if nothing
is taken from the queue. -/
theorem Marked.marks_kept {calls : List (Call S P)} {count : Nat} {ledger : Ledger S P}
    (marked : Marked calls count ledger) (call : Call S P) (length : Nat)
    (grown : ledger.waiting.length ≤ length) :
    (ledger.canvas.answer call).marks.Pairwise (· ≥ ·) ∧
      (ledger.canvas.answer call).brush.mark ≤ length := by
  have queue : ledger.canvas.queue.length = ledger.waiting.length := by
    rw [← marked.mirrored, List.length_map]
  have below := Nat.le_trans marked.below grown
  have first (canvas : Canvas S P) : canvas.marks.head? = some canvas.brush.mark := rfl
  rcases ledger.canvas.answer_marks call with ⟨-, marks⟩ | ⟨-, mark, marks⟩ | marks
  · have low : ∀ mark ∈ ledger.canvas.marks, ledger.canvas.queue.length ≥ mark := by
      intro mark member
      rw [queue]
      rcases List.mem_cons.mp member with rfl | saved
      · exact marked.below
      · exact Nat.le_trans (List.rel_of_pairwise_cons marked.descending saved) marked.below
    have here := first (ledger.canvas.answer call)
    rw [marks] at here ⊢
    refine ⟨List.pairwise_cons.mpr ⟨low, marked.descending⟩, ?_⟩
    rw [← Option.some.inj here, queue]
    exact grown
  · have descending := marked.descending
    have here := first ledger.canvas
    rw [marks] at descending here
    obtain rfl := Option.some.inj here
    refine ⟨(List.pairwise_cons.mp descending).2, ?_⟩
    exact Nat.le_trans (List.rel_of_pairwise_cons descending List.mem_cons_self) below
  · have here := first (ledger.canvas.answer call)
    rw [marks] at here ⊢
    exact ⟨marked.descending, Option.some.inj here ▸ below⟩

/-- What is known of the queue is known after every call. -/
theorem Marked.step {calls : List (Call S P)} {count : Nat} {ledger : Ledger S P}
    (marked : Marked calls count ledger) {call : Call S P} (comes : calls[count]? = some call) :
    Marked calls (count + 1) (ledger.answer call) := by
  have mirrored := ledger.answer_mirrored call marked.mirrored
  have canvas := marked.answered comes
  rcases ledger.answer_cases call with
    ⟨head, window, rfl, -, answered⟩ | ⟨noTrim, -, answered⟩
  · rw [answered] at mirrored ⊢
    have kept : ((ledger.waiting.take ledger.canvas.brush.mark).flatMap Pile.made).Sublist
        (ledger.waiting.flatMap Pile.made) := (List.take_sublist _ _).flatMap _
    have marks : (ledger.canvas.answer (.visit head (.trim window))).marks =
        ledger.canvas.marks := rfl
    have depth : Call.depth calls (count + 1) + 1 = ledger.canvas.marks.length := by
      rw [← marks, canvas]
      simp [Call.depth, Canvas.marks]
    constructor
    case canvas => exact canvas
    case numbered => exact congrArg Nat.succ marked.numbered
    case mirrored => exact mirrored
    case below =>
      rw [List.length_take]
      exact Nat.le_min.mpr ⟨Nat.le_refl _, marked.below⟩
    case descending => exact marked.descending
    case inside => exact (marked.inside.later (Nat.le_of_eq depth.symm)).take _
    case ordered => exact marked.ordered.sublist kept
    case early =>
      exact fun deposit left => Nat.lt_succ_of_lt (marked.early deposit (kept.subset left))
    case waits =>
      intro deposit left
      obtain ⟨member, apart⟩ := marked.trimmed deposit left
      obtain ⟨waits, earlier⟩ := marked.waits deposit member
      refine ⟨waits, fun between later upTo trims => ?_⟩
      rcases Nat.lt_succ_iff_lt_or_eq.mp upTo with before | rfl
      · exact earlier between later before trims
      · exact apart
  · rw [answered] at mirrored ⊢
    have made := Pile.put_all_made ledger.canvas.brush.mark ledger.waiting
      (ledger.canvas.deposits ledger.count call)
    have deposits := marked.deposits comes
    have placed := marked.put comes
    have grown : ledger.waiting.length ≤ ((ledger.canvas.deposits ledger.count call).foldl
        (Pile.put ledger.canvas.brush.mark) ledger.waiting).length :=
      Pile.put_all_grows _ _ _
    obtain ⟨descending, below⟩ := marked.marks_kept call _ grown
    generalize ledger.canvas.deposits ledger.count call = added at *
    have apart : ¬ Call.Trims calls count := by
      rintro ⟨head, window, found⟩
      obtain rfl := Option.some.inj (comes.symm.trans found)
      exact List.cons_ne_nil _ _ (noTrim 0)
    constructor
    case canvas => exact canvas
    case numbered => exact congrArg Nat.succ marked.numbered
    case mirrored => exact mirrored
    case below => exact below
    case descending => exact descending
    case inside => exact placed
    case ordered =>
      rw [made]
      refine List.pairwise_append.mpr ⟨marked.ordered, ?_, ?_⟩
      · exact List.pairwise_of_forall_mem_list fun first inFirst second inSecond =>
          Nat.le_of_eq ((deposits first inFirst).1.trans (deposits second inSecond).1.symm)
      · intro earlier old later new
        rw [(deposits later new).1]
        exact Nat.le_of_lt (marked.early earlier old)
    case early =>
      rw [made]
      intro deposit member
      rcases List.mem_append.mp member with old | new
      · exact Nat.lt_succ_of_lt (marked.early deposit old)
      · rw [(deposits deposit new).1]
        exact Nat.lt_succ_self _
    case waits =>
      rw [made]
      intro deposit member
      rcases List.mem_append.mp member with old | new
      · obtain ⟨waits, earlier⟩ := marked.waits deposit old
        refine ⟨waits, fun between later upTo trims => ?_⟩
        rcases Nat.lt_succ_iff_lt_or_eq.mp upTo with before | rfl
        · exact earlier between later before trims
        · exact absurd trims apart
      · obtain ⟨now, waits⟩ := deposits deposit new
        rw [now]
        exact ⟨waits, fun between later upTo => by omega⟩

end VectorMotion.Render
