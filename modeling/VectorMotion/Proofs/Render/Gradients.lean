import VectorMotion.Proofs.Render.Fillings
import VectorMotion.Proofs.Render.Painting

/-!
# Gradients in force

A gradient gets its number when a drawing is told about it, and the paint that bears this number is
saved, restored, copied into the queue and used long after. The numbers stay right, because they
count the gradients that have been told about, which nothing takes back.

The paint holds for what is drawn later in the same container and in the containers that stand in
it. So of every outline that is painted with a gradient, each shape that the outline shows has been
drawn after the gradient was told about, and before the end of the container that the gradient
stands in. Outlines that have waited as one need a look at what puts them together: the numbers in
their paints are compared, and a number stands for one gradient.
-/

namespace VectorMotion.Render

open Scene

variable {S P : Type}

/-- The number of the gradient that a paint refers to. -/
def Paint.gradient? : Paint S → Option Nat
  | .gradient index _ _ => some index
  | _ => none

/-- The number of the gradient that an element refers to. -/
def Element.gradient? : Element S P → Option Nat
  | .outline _ _ _ paint _ => paint.gradient?
  | .picture .. => none

/-- A paint refers to the same gradient in the coordinates of the document. -/
@[simp]
theorem Paint.scaled_gradient [Scalar S] (factor : S) (paint : Paint S) :
    (paint.scaled factor).gradient? = paint.gradient? := by
  cases paint <;> rfl

/-- Paints that are not told apart refer to the same gradient. -/
theorem Paint.indistinct_gradient [Scalar S] {first second : Paint S}
    (indistinct : Indistinct first second) : first.gradient? = second.gradient? := by
  rcases indistinct with rfl | same
  · rfl
  · cases first with
    | gradient index =>
      cases second with
      | gradient other =>
        have numbers : (index == other) = true := by
          simp only [BEq.beq, instBEqPaint.beq, Bool.and_eq_true] at same
          exact same.1
        rw [gradient?, gradient?, eq_of_beq numbers]
      | _ => cases same
    | _ => cases second <;> first | rfl | cases same

/-! ## Numbers of gradients -/

namespace Call

/-- The gradient that a call tells about. -/
def gradient? : Call S P → Option (GradientFill S)
  | .visit _ (.gradient gradient) => some gradient
  | _ => none

/-- A gradient is told of only by the visit of its own node. -/
theorem gradient_told {call : Call S P} {gradient : GradientFill S}
    (told : call.gradient? = some gradient) : ∃ head, call = .visit head (.gradient gradient) := by
  unfold gradient? at told
  split at told
  · exact ⟨_, congrArg _ (congrArg _ (Option.some.inj told))⟩
  · cases told

/-- Whether a call tells about a gradient. -/
def Tells (calls : List (Call S P)) (start : Nat) (gradient : GradientFill S) : Prop :=
  ∃ head, calls[start]? = some (.visit head (.gradient gradient))

/-- How many gradients have been told about before a call. -/
def gradientNumber (calls : List (Call S P)) (start : Nat) : Nat :=
  ((calls.take start).filterMap gradient?).length

/-- The number of a gradient is its place among all that are told about. -/
theorem Tells.found {calls : List (Call S P)} {start : Nat} {gradient : GradientFill S}
    (tells : Tells calls start gradient) :
    (calls.filterMap gradient?)[gradientNumber calls start]? = some gradient := by
  obtain ⟨head, comes⟩ := tells
  obtain ⟨bound, found⟩ := List.getElem?_eq_some_iff.mp comes
  have parts : calls = calls.take start ++ calls[start] :: calls.drop (start + 1) := by
    rw [List.getElem_cons_drop, List.take_append_drop]
  have told : calls.filterMap gradient? = (calls.take start).filterMap gradient? ++
      gradient :: (calls.drop (start + 1)).filterMap gradient? := by
    conv => lhs; rw [parts]
    rw [List.filterMap_append, found]
    rfl
  rw [told, gradientNumber, List.getElem?_append_right (Nat.le_refl _), Nat.sub_self]
  rfl

/-- Later gradients have higher numbers. -/
theorem Tells.counted {calls : List (Call S P)} {start later : Nat} {gradient : GradientFill S}
    (tells : Tells calls start gradient) (before : start < later) :
    gradientNumber calls start < gradientNumber calls later := by
  obtain ⟨head, comes⟩ := tells
  have next : (calls.take (start + 1)).filterMap gradient? =
      (calls.take start).filterMap gradient? ++ [gradient] := by
    rw [List.take_add_one, comes, List.filterMap_append]
    rfl
  have kept : _ ≤ gradientNumber calls later :=
    ((List.take_prefix_take_left before).sublist.filterMap gradient?).length_le
  rw [next, List.length_append] at kept
  exact kept

/-- There is one call that tells about the gradient of a number. -/
theorem Tells.unique {calls : List (Call S P)} {first second : Nat}
    {gradient other : GradientFill S} (tells : Tells calls first gradient)
    (tellsToo : Tells calls second other)
    (same : gradientNumber calls first = gradientNumber calls second) : first = second := by
  rcases Nat.lt_trichotomy first second with less | equal | greater
  · exact absurd same (Nat.ne_of_lt (tells.counted less))
  · exact equal
  · exact absurd same.symm (Nat.ne_of_lt (tellsToo.counted greater))

end Call

/-- An outline is never put down without a shape that it is made of. -/
theorem Pile.put_all_nonempty [Scalar S] (mark : Nat) (waiting : List (Pile S P))
    (deposits : List (Deposit S P)) (made : ∀ pile ∈ waiting, pile.made ≠ []) :
    ∀ pile ∈ deposits.foldl (Pile.put mark) waiting, pile.made ≠ [] := by
  induction deposits generalizing waiting with
  | nil => exact made
  | cons first rest inductionHypothesis =>
    refine inductionHypothesis _ fun pile member => ?_
    rcases Pile.put_cases mark waiting first with ⟨front, last, rfl, -, -, joined⟩ | apart
    · rw [joined, List.mem_append, List.mem_singleton] at member
      rcases member with earlier | rfl
      · exact made pile (List.mem_append_left _ earlier)
      · simp
    · rw [apart, List.mem_append, List.mem_singleton] at member
      rcases member with earlier | rfl
      · exact made pile earlier
      · simp

variable [Scalar S] [Scalar P] [Widen S P] [Measure P]

/-- Answering a call adds its gradient, if it has one, behind the others. -/
theorem Canvas.answer_gradients (canvas : Canvas S P) (call : Call S P) :
    (canvas.answer call).gradients = canvas.gradients ++ call.gradient?.toList := by
  cases call with
  | restore =>
    simp only [answer, Call.gradient?]
    split <;> simp
  | visit head visit =>
    cases visit with
    | shape shape =>
      simp only [answer, Canvas.visit, Call.gradient?, draw]
      split_ifs <;> simp
    | transform transform =>
      simp only [answer, Canvas.visit, Call.gradient?, placePicture]
      split <;> simp [mapBrush]
    | _ => simp [answer, Canvas.visit, Call.gradient?, mapBrush, applyTrim]
  | _ => simp [answer, Call.gradient?]

/-- The gradients of a drawing are those that it has been told about, in this order. -/
theorem Canvas.gradients_told (calls : List (Call S P)) :
    (ofCalls calls).gradients = calls.filterMap Call.gradient? := by
  induction calls using List.reverseRecOn with
  | nil => rfl
  | append_singleton earlier last inductionHypothesis =>
    have answered : ofCalls (earlier ++ [last]) = (ofCalls earlier).answer last :=
      List.foldl_concat ..
    rw [answered, answer_gradients, inductionHypothesis, List.filterMap_append]
    cases told : last.gradient? <;> simp [told]

/-! ## Gradients of the brushes -/

/-- A gradient that a drawing is told about at one call is in force at another: that comes later,
and the container in which the gradient stands has not ended in between. -/
structure Call.InForce (calls : List (Call S P)) (start number : Nat)
    (gradient : GradientFill S) : Prop where
  tells : Call.Tells calls start gradient
  earlier : start < number
  within : ∀ between, start ≤ between → between ≤ number →
    Call.depth calls start ≤ Call.depth calls between

/-- A number that a paint bears while `level` containers are open around the one that the paint
holds in: the number of a gradient that is in force. -/
def Call.Supplied (calls : List (Call S P)) (number level index : Nat) : Prop :=
  ∃ start gradient, Call.InForce calls start number gradient ∧ Call.depth calls start ≤ level ∧
    index = Call.gradientNumber calls start

/-- A gradient stays in force while its container is open. -/
theorem Call.Supplied.later {calls : List (Call S P)} {number level higher index : Nat}
    (supplied : Call.Supplied calls number level index) (upTo : level ≤ higher)
    (still : level ≤ Call.depth calls (number + 1)) :
    Call.Supplied calls (number + 1) higher index := by
  obtain ⟨start, gradient, ⟨tells, earlier, within⟩, shallow, numbered⟩ := supplied
  refine ⟨start, gradient, ⟨tells, Nat.lt_succ_of_lt earlier, ?_⟩, shallow.trans upTo, numbered⟩
  intro between begun ended
  rcases Nat.lt_or_ge number between with last | before
  · rw [show between = number + 1 by omega]
    exact shallow.trans still
  · exact within between begun before

/-- The gradient that a drawing has just been told about is in force. -/
theorem Call.Supplied.told {calls : List (Call S P)} {number : Nat} {gradient : GradientFill S}
    (tells : Call.Tells calls number gradient)
    (still : Call.depth calls number ≤ Call.depth calls (number + 1)) :
    Call.Supplied calls (number + 1) (Call.depth calls number)
      (Call.gradientNumber calls number) := by
  refine ⟨number, gradient, ⟨tells, Nat.lt_succ_self _, ?_⟩, Nat.le_refl _, rfl⟩
  intro between begun ended
  rcases Nat.lt_or_ge number between with last | before
  · rwa [show between = number + 1 by omega]
  · rw [show between = number by omega]

/-- The gradients that the brushes of the containers refer to, the innermost container first. -/
def Canvas.palettes (canvas : Canvas S P) : List (List Nat) :=
  (canvas.brush :: canvas.saved).map fun brush => brush.paints.filterMap Paint.gradient?

/-- The innermost container begins with the palette around it, and leaves it as it was. Otherwise
only a gradient that a drawing is told about is added, under the next number. -/
theorem Canvas.answer_palettes (canvas : Canvas S P) (call : Call S P) :
    (∃ palette rest, canvas.palettes = palette :: rest ∧
      (canvas.answer call).palettes = palette :: canvas.palettes) ∨
    (∃ palette, canvas.palettes = palette :: (canvas.answer call).palettes) ∨
    (∃ palette rest, canvas.palettes = palette :: rest ∧ (canvas.answer call).palettes =
      (palette ++ call.gradient?.toList.map fun _ => canvas.gradients.length) :: rest) := by
  cases call with
  | save => exact .inl ⟨_, _, rfl, rfl⟩
  | restore =>
    right
    cases last : canvas.saved with
    | nil => exact .inr ⟨_, _, rfl, by simp [palettes, answer, last, Call.gradient?]⟩
    | cons brush saved =>
      exact .inl ⟨canvas.brush.paints.filterMap Paint.gradient?, by simp [palettes, answer, last]⟩
  | visit head visit =>
    refine .inr (.inr ⟨_, _, rfl, ?_⟩)
    cases visit with
    | shape shape =>
      obtain ⟨brush, saved, -⟩ := canvas.draw_kept shape.path
      simp [palettes, answer, Canvas.visit, brush, saved, Call.gradient?]
    | transform transform =>
      simp only [palettes, answer, Canvas.visit, placePicture]
      split <;> simp [mapBrush, Brush.within, Brush.faded, Call.gradient?]
    | _ =>
      simp [palettes, answer, Canvas.visit, mapBrush, Brush.within, Brush.faded, Brush.addPaint,
        applyTrim, Call.gradient?, Paint.gradient?, Paint.ofFill, Paint.ofStroke]
  | _ => exact .inr (.inr ⟨_, _, rfl, by simp [palettes, answer, Call.gradient?]⟩)

/-- The brush of a container refers to gradients that are in force, all of which stand in this
container or around it.

The induction is on the calls. Every container that is open keeps its place among those that are,
counted from the outside, so what stands in it or around it stays open while it does. -/
theorem Canvas.palettes_supplied (calls : List (Call S P)) (count : Nat)
    (upTo : count ≤ calls.length) (inner : List (List Nat)) (palette : List Nat)
    (outer : List (List Nat))
    (split : (ofCalls (calls.take count)).palettes = inner ++ palette :: outer) :
    ∀ index ∈ palette, Call.Supplied calls count outer.length index := by
  induction count generalizing inner palette outer with
  | zero =>
    rw [List.take_zero] at split
    have none : palette = [] := by
      have member : palette ∈ (ofCalls ([] : List (Call S P))).palettes := by simp [split]
      exact List.mem_singleton.mp member
    simp [none]
  | succ count inductionHypothesis =>
    let before := ofCalls (calls.take count)
    let call := calls[count]
    have comes : calls[count]? = some call := List.getElem?_eq_getElem upTo
    have answered : ofCalls (calls.take (count + 1)) = before.answer call := by
      rw [List.take_add_one, comes]
      exact List.foldl_concat ..
    have depth (canvas : Canvas S P) : canvas.palettes.length = canvas.saved.length + 1 := by
      simp [palettes]
    have deep : outer.length ≤ Call.depth calls (count + 1) := by
      have lengths := congrArg List.length split
      rw [depth, List.length_append, List.length_cons] at lengths
      have same : Call.depth calls (count + 1) =
        (ofCalls (calls.take (count + 1))).saved.length := rfl
      omega
    have known := inductionHypothesis (Nat.le_of_succ_le upTo)
    rw [answered] at split
    intro index member
    rcases before.answer_palettes call with
      ⟨top, rest, old, new⟩ | ⟨top, old⟩ | ⟨top, rest, old, new⟩
    -- A container has been opened: its palette is a copy of the one that it stands in.
    · rw [new] at split
      cases inner with
      | nil =>
        obtain ⟨rfl, rfl⟩ := List.cons.inj split
        have around := known [] top rest old index member
        have shallower : rest.length ≤ before.palettes.length := by simp [old]
        exact around.later shallower (shallower.trans deep)
      | cons first inner =>
        exact (known inner palette outer (List.cons.inj split).2 index member).later
          (Nat.le_refl _) deep
    -- The innermost container has been closed, and the others are as they were.
    · rw [split] at old
      exact (known (top :: inner) palette outer old index member).later (Nat.le_refl _) deep
    -- Nothing but the innermost palette has changed, and that by what the call tells about.
    · rw [new] at split
      cases inner with
      | nil =>
        obtain ⟨rfl, rfl⟩ := List.cons.inj split
        rcases List.mem_append.mp member with kept | added
        · exact (known [] top rest old index kept).later (Nat.le_refl _) deep
        · obtain ⟨gradient, told, rfl⟩ := List.mem_map.mp added
          obtain ⟨head, tells⟩ := Call.gradient_told (Option.mem_toList.mp told)
          have here : rest.length = Call.depth calls count := by
            have length := depth before
            rw [old, List.length_cons] at length
            exact Nat.succ.inj length
          have number : before.gradients.length = Call.gradientNumber calls count := by
            rw [gradients_told]
            rfl
          rw [here] at deep ⊢
          rw [number]
          exact .told ⟨head, comes.trans (congrArg some tells)⟩ deep
      | cons first inner =>
        obtain ⟨-, others⟩ := List.cons.inj split
        exact (known (top :: inner) palette outer (by rw [old, others]; rfl) index member).later
          (Nat.le_refl _) deep

/-! ## Gradients of the coats -/

/-- Whether a call draws a shape. -/
def Call.IsShape (calls : List (Call S P)) (number : Nat) : Prop :=
  ∃ head shape, calls[number]? = some (.visit head (.shape shape))

/-- A shape for which the gradient of a number is in force. -/
structure Call.Tinted (calls : List (Call S P)) (number index : Nat) : Prop where
  isShape : Call.IsShape calls number
  source : ∃ start gradient, Call.InForce calls start number gradient ∧
    index = Call.gradientNumber calls start

/-- The gradients that the brush of a shape refers to are in force for it. -/
theorem Call.Tinted.ofBrush {calls : List (Call S P)} {number index : Nat}
    (isShape : Call.IsShape calls number) {paint : Paint S}
    (member : paint ∈ (Canvas.ofCalls (calls.take number)).brush.paints)
    (refers : paint.gradient? = some index) : Call.Tinted calls number index := by
  obtain ⟨_, _, comes⟩ := id isShape
  have bound := (List.getElem?_eq_some_iff.mp comes).1
  obtain ⟨start, gradient, inForce, -, numbered⟩ :=
    Canvas.palettes_supplied calls number (Nat.le_of_lt bound) [] _ _ rfl index
      (List.mem_filterMap.mpr ⟨paint, member, refers⟩)
  exact ⟨isShape, start, gradient, inForce, numbered⟩

/-- What waits has been drawn. -/
theorem Ledger.waiting_nonempty (calls : List (Call S P)) :
    ∀ pile ∈ (Ledger.ofCalls calls).waiting, pile.made ≠ [] := by
  induction calls using List.reverseRecOn with
  | nil =>
    intro pile member
    cases member
  | append_singleton earlier last inductionHypothesis =>
    have next : Ledger.ofCalls (earlier ++ [last]) = (Ledger.ofCalls earlier).answer last :=
      List.foldl_concat ..
    rw [next]
    rcases (Ledger.ofCalls earlier).answer_cases last with
      ⟨head, window, rfl, -, answered⟩ | ⟨-, -, answered⟩
    · rw [answered]
      exact fun pile member => inductionHypothesis pile (List.mem_of_mem_take member)
    · rw [answered]
      exact Pile.put_all_nonempty _ _ _ inductionHypothesis

/-- The gradients of an outline that waits are in force for each of the shapes that it is made of.
The shapes look the same, so each of them was drawn with a gradient of this number. -/
theorem Ledger.waiting_tinted (calls : List (Call S P)) (count : Nat) :
    ∀ pile ∈ (Ledger.ofCalls (calls.take count)).waiting, ∀ paint ∈ pile.shown.paints, ∀ index,
      paint.gradient? = some index →
        ∀ deposit ∈ pile.made, Call.Tinted calls deposit.call index := by
  intro pile waits paint painted index refers deposit made
  have records := Ledger.of_calls_records (calls.take count)
  have noted : deposit ∈ alongside Canvas.deposits (calls.take count) := by
    refine records.conserved.subset (List.mem_append_right _ ?_)
    exact List.mem_flatMap.mpr ⟨pile, waits, made⟩
  obtain ⟨number, call, found, deposited⟩ := (mem_alongside _ _ _).mp noted
  have before : number < count := by
    have bound := (List.getElem?_eq_some_iff.mp found).1
    rw [List.length_take] at bound
    omega
  have comes : calls[number]? = some call := by rwa [List.getElem?_take_of_lt before] at found
  rw [List.take_take, Nat.min_eq_left (Nat.le_of_lt before)] at deposited
  obtain ⟨head, shape, rfl, -, -, rfl, -, copied⟩ := (Canvas.mem_deposits _ _ _ _).mp deposited
  have sound := records.sound pile (List.mem_append_right _ waits)
  obtain ⟨-, looks, -⟩ := (sound.look deposit made).parts
  -- Shapes are joined by a comparison of their paints, so they bear the same numbers.
  have sameNumbers : pile.shown.paints.map Paint.gradient? =
      deposit.queued.paints.map Paint.gradient? := by
    rw [← List.forall₂_eq_eq_eq, List.forall₂_map_left_iff, List.forall₂_map_right_iff]
    exact looks.forall.imp fun _ _ => Paint.indistinct_gradient
  have brushNumbers : deposit.queued.paints.map Paint.gradient? =
      (Canvas.ofCalls (calls.take deposit.call)).brush.paints.map Paint.gradient? := by
    obtain ⟨instance', -, same⟩ := List.mem_map.mp (List.mem_of_getElem? copied)
    rw [← same, List.map_map]
    exact List.map_congr_left fun paint _ => Paint.scaled_gradient _ paint
  have here := List.mem_map_of_mem (f := Paint.gradient?) painted
  rw [sameNumbers, brushNumbers, refers] at here
  obtain ⟨source, member, same⟩ := List.mem_map.mp here
  exact .ofBrush ⟨head, shape, comes⟩ member same

/-- Of an outline that a call paints with a gradient, each shape that it shows has been drawn while
this gradient was in force. -/
theorem Ledger.coats_tinted (calls : List (Call S P)) (count : Nat) (call : Call S P)
    (comes : calls[count]? = some call) :
    ∀ coat ∈ (Ledger.ofCalls (calls.take count)).coats call, ∀ element ∈ coat.elements, ∀ index,
      element.gradient? = some index →
        coat.drawn ≠ [] ∧ ∀ number ∈ coat.drawn, Call.Tinted calls number index := by
  have records := Ledger.of_calls_records (calls.take count)
  have bound := (List.getElem?_eq_some_iff.mp comes).1
  have numbered : (Ledger.ofCalls (calls.take count)).count = count := by
    rw [records.count, List.length_take, Nat.min_eq_left (Nat.le_of_lt bound)]
  intro coat member element painted index refers
  cases call with
  | visit head visit =>
    cases visit with
    | shape shape =>
      simp only [coats] at member
      split at member
      · cases member
      · obtain rfl := List.mem_singleton.mp member
        simp only [Brush.paint, List.mem_flatMap, List.mem_map] at painted
        obtain ⟨_, -, paint, inBrush, rfl⟩ := painted
        refine ⟨List.cons_ne_nil _ _, fun number drawn => ?_⟩
        obtain rfl : number = count := (List.mem_singleton.mp drawn).trans numbered
        rw [records.canvas] at inBrush
        exact .ofBrush ⟨head, shape, comes⟩ inBrush refers
    | transform transform =>
      obtain ⟨picture, -, rfl⟩ := List.mem_map.mp member
      obtain rfl := List.mem_singleton.mp painted
      cases refers
    | trim window =>
      obtain ⟨place, found⟩ := List.mem_iff_getElem?.mp member
      obtain ⟨pile, left, here, -, rfl⟩ := List.getElem?_zipWith_eq_some.mp found
      have waits := List.mem_of_mem_drop (List.mem_of_getElem? here)
      simp only [Queued.paint] at painted
      split at painted
      · cases painted
      · obtain ⟨paint, inPile, rfl⟩ := List.mem_map.mp painted
        refine ⟨fun none => ?_, fun number drawn => ?_⟩
        · exact waiting_nonempty _ pile waits (List.map_eq_nil_iff.mp none)
        · obtain ⟨deposit, made, rfl⟩ := List.mem_map.mp drawn
          exact waiting_tinted calls count pile waits paint inPile index refers deposit made
    | _ => cases member
  | _ => cases member

/-- A coat is painted by one of the calls. -/
theorem Coat.painted_by (calls : List (Call S P)) (coat : Coat S P)
    (member : coat ∈ Coat.ofCalls calls) :
    ∃ count call, calls[count]? = some call ∧
      coat ∈ (Ledger.ofCalls (calls.take count)).coats call := by
  induction calls using List.reverseRecOn with
  | nil => cases member
  | append_singleton earlier last inductionHypothesis =>
    rw [ofCalls, Ledger.coats_concat] at member
    rcases List.mem_append.mp member with old | new
    · obtain ⟨count, call, comes, painted⟩ := inductionHypothesis old
      have bound := (List.getElem?_eq_some_iff.mp comes).1
      refine ⟨count, call, ?_, ?_⟩
      · rw [List.getElem?_append_left bound, comes]
      · rw [List.take_append_of_le_length (Nat.le_of_lt bound)]
        exact painted
    · refine ⟨earlier.length, last, by simp, ?_⟩
      rw [List.take_left]
      exact new

/-- Every outline that is painted with a gradient shows shapes, and for each of them the gradient of
this number was in force when it was drawn. The drawing has one gradient of this number, and it is
that one. This holds of what is painted at once as of what has waited for a trim. -/
theorem gradients_in_force (calls : List (Call S P)) :
    ∀ coat ∈ Coat.ofCalls calls, ∀ element ∈ coat.elements, ∀ index,
      element.gradient? = some index →
        coat.drawn ≠ [] ∧ ∀ number ∈ coat.drawn, Call.IsShape calls number ∧
          ∃ start gradient, Call.InForce calls start number gradient ∧
            index = Call.gradientNumber calls start ∧
            (Canvas.ofCalls calls).gradients[index]? = some gradient := by
  intro coat member element painted index refers
  obtain ⟨count, call, comes, here⟩ := coat.painted_by calls member
  obtain ⟨shows, tinted⟩ := Ledger.coats_tinted calls count call comes coat here element painted
    index refers
  refine ⟨shows, fun number drawn => ?_⟩
  obtain ⟨isShape, start, gradient, inForce, rfl⟩ := tinted number drawn
  refine ⟨isShape, start, gradient, inForce, rfl, ?_⟩
  rw [Canvas.gradients_told]
  exact inForce.tells.found

end VectorMotion.Render
