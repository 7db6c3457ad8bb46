import VectorMotion.Proofs.Render.Coats
import VectorMotion.Proofs.Render.Marks
import VectorMotion.Proofs.Scalar.Rounded
import VectorMotion.Svg.Drawing

/-!
# The order of painting

A shape that is drawn under no trim, or under one that treats every shape by itself, is painted at
once. One that waits is painted when a container around it carries out a trim of its own, and it is
the innermost of them that does. Containers that stand in each other end in turn from the inside
out, so a shape that waits for the end of an outer one is painted behind everything that an inner
one, which may have begun long after it, has painted by its own end.

That is all that can change the order. What is painted by one call is painted in the order in which
it was drawn, and what different calls have painted is in the order of these calls. Both are read
off the marks: those of the containers that have not ended are in ascending order, and what waits
behind the mark of one has come since it began.
-/

namespace VectorMotion.Render

open Scene

variable {S P : Type}

/-- One coat is painted before another, or by the same call and shows nothing that has been drawn
later. -/
def Coat.Before (first second : Coat S P) : Prop :=
  first.call < second.call ∨
    (first.call = second.call ∧ ∀ a ∈ first.drawn, ∀ b ∈ second.drawn, a ≤ b)

variable [Scalar S] [Scalar P] [Widen S P] [Measure P]

namespace Call

/-- The call that carries out the trim of the innermost container around another call that has one
carried out. -/
structure TakenAt (calls : List (Call S P)) (number finish : Nat) : Prop where
  later : number < finish
  trims : Trims calls finish
  holds : Holds calls finish number
  first : ∀ between, number < between → between < finish → Trims calls between →
    ¬ Holds calls between number

/-- When that which a call draws is painted: at once, or at the end of a container. -/
inductive PaintedAt (calls : List (Call S P)) (number : Nat) : Nat → Prop
  | atOnce (shown : ¬ Waits calls number) : PaintedAt calls number number
  | later (finish : Nat) (waits : Waits calls number) (taken : TakenAt calls number finish) :
    PaintedAt calls number finish

/-- There is one call by which a shape is painted. -/
theorem PaintedAt.unique {calls : List (Call S P)} {number first second : Nat}
    (atFirst : PaintedAt calls number first) (atSecond : PaintedAt calls number second) :
    first = second := by
  cases atFirst with
  | atOnce shown =>
    cases atSecond with
    | atOnce => rfl
    | later _ waits => exact absurd waits shown
  | later _ waits taken =>
    cases atSecond with
    | atOnce shown => exact absurd waits shown
    | later _ _ other =>
      rcases Nat.lt_trichotomy first second with less | same | greater
      · exact absurd taken.holds (other.first first taken.later less taken.trims)
      · exact same
      · exact absurd other.holds (taken.first second other.later greater other.trims)

end Call

/-- A call has drawn a shape that has an outline and at least one copy. -/
def Call.Draws (calls : List (Call S P)) (number : Nat) : Prop :=
  ∃ head shape, calls[number]? = some (.visit head (.shape shape)) ∧ shape.path ≠ [] ∧
    (Canvas.ofCalls (calls.take number)).brush.instances ≠ []

/-- What has been painted when a call comes. -/
structure Painted (calls : List (Call S P)) (count : Nat) (ledger : Ledger S P)
    (coats : List (Coat S P)) : Prop where
  elements : ledger.canvas.elements = coats.flatMap Coat.elements
  settled : ∀ coat ∈ coats, coat.call < count ∧
    ∀ number ∈ coat.drawn, Call.PaintedAt calls number coat.call
  ordered : coats.Pairwise Coat.Before
  complete : ∀ number < count, Call.Draws calls number →
    (∃ deposit ∈ ledger.waiting.flatMap Pile.made, deposit.call = number) ∨
      ∃ coat ∈ coats, number ∈ coat.drawn

/-- What a trim takes from the queue. -/
theorem Marked.taken {calls : List (Call S P)} {count : Nat} {ledger : Ledger S P}
    (marked : Marked calls count ledger) (trims : Call.Trims calls count) (pile : Pile S P)
    (taken : pile ∈ ledger.waiting.drop ledger.canvas.brush.mark) :
    ∀ deposit ∈ pile.made, Call.PaintedAt calls deposit.call count := by
  intro deposit made
  obtain ⟨place, found⟩ := List.mem_iff_getElem?.mp taken
  rw [List.getElem?_drop] at found
  have waiting : deposit ∈ ledger.waiting.flatMap Pile.made :=
    List.mem_flatMap.mpr ⟨pile, List.mem_of_getElem? found, made⟩
  obtain ⟨waits, earlier⟩ := marked.waits deposit waiting
  exact .later count waits
    { later := marked.early deposit waiting
      trims := trims
      holds := (marked.behind _ pile found deposit made).mp (Nat.le_add_right _ _)
      first := earlier }

/-- What a call paints is due then, and in the order in which it was drawn. -/
theorem Marked.coats {calls : List (Call S P)} {count : Nat} {ledger : Ledger S P}
    (marked : Marked calls count ledger) {call : Call S P} (comes : calls[count]? = some call) :
    (∀ coat ∈ ledger.coats call, coat.call = count ∧
      ∀ number ∈ coat.drawn, Call.PaintedAt calls number count) ∧
    (ledger.coats call).Pairwise Coat.Before := by
  have numbered := marked.numbered
  cases call with
  | visit head visit =>
    cases visit with
    | shape shape =>
      simp only [Ledger.coats]
      split
      · exact ⟨by simp, .nil⟩
      next drawn =>
        refine ⟨?_, List.pairwise_singleton ..⟩
        simp only [List.mem_singleton, forall_eq, numbered, true_and]
        refine .atOnce fun waits => drawn ?_
        rw [marked.canvas, waits.2]
        simp
    | transform transform =>
      refine ⟨?_, ?_⟩
      · intro coat member
        obtain ⟨picture, -, rfl⟩ := List.mem_map.mp member
        simp only [List.mem_singleton, forall_eq, numbered, true_and]
        refine .atOnce fun waits => ?_
        obtain ⟨⟨_, _, found⟩, -⟩ := waits
        cases comes.symm.trans found
      · cases none : ledger.canvas.picture <;> simp [Ledger.coats, none]
    | trim window =>
      have trims : Call.Trims calls count := ⟨head, window, comes⟩
      refine ⟨?_, ?_⟩
      · intro coat member
        obtain ⟨place, found⟩ := List.mem_iff_getElem?.mp member
        obtain ⟨pile, left, here, -, rfl⟩ := List.getElem?_zipWith_eq_some.mp found
        refine ⟨numbered, fun number inside => ?_⟩
        obtain ⟨deposit, made, rfl⟩ := List.mem_map.mp inside
        exact marked.taken trims pile (List.mem_of_getElem? here) deposit made
      · have own := (List.pairwise_flatMap.mp
          (marked.ordered.sublist
            ((List.drop_sublist ledger.canvas.brush.mark _).flatMap Pile.made))).2
        rw [Ledger.coats, ← List.map_uncurry_zip_eq_zipWith, List.pairwise_map]
        generalize ledger.waiting.drop ledger.canvas.brush.mark = piles at own
        have length := cut_together_length window (piles.map fun pile => pile.shown.path)
        rw [List.length_map] at length
        rw [← List.map_fst_zip (Nat.le_of_eq length.symm), List.pairwise_map] at own
        refine own.imp fun {first second} apart => .inr ⟨rfl, ?_⟩
        intro a inFirst b inSecond
        obtain ⟨deposit, made, rfl⟩ := List.mem_map.mp inFirst
        obtain ⟨later, madeLater, rfl⟩ := List.mem_map.mp inSecond
        exact apart deposit made later madeLater
    | _ => exact ⟨by simp [Ledger.coats], .nil⟩
  | _ => exact ⟨by simp [Ledger.coats], .nil⟩

/-- What a call draws is painted by it or waits behind it. -/
theorem Marked.drawn {calls : List (Call S P)} {count : Nat} {ledger : Ledger S P}
    (marked : Marked calls count ledger) {call : Call S P} (comes : calls[count]? = some call)
    (draws : Call.Draws calls count) :
    (∃ deposit ∈ (ledger.answer call).waiting.flatMap Pile.made, deposit.call = count) ∨
      ∃ coat ∈ ledger.coats call, count ∈ coat.drawn := by
  obtain ⟨head, shape, found, outlined, copied⟩ := draws
  obtain rfl := Option.some.inj (comes.symm.trans found)
  have drawn : shape.path.isEmpty = false := by
    simpa [List.isEmpty_eq_false_iff] using outlined
  by_cases state : ledger.canvas.trimming.current = .simultaneous
  · left
    have copies : (ledger.canvas.brush.queued shape.path) ≠ [] := by
      rw [marked.canvas]
      simpa [Brush.queued] using copied
    obtain ⟨queued, rest, some⟩ := List.exists_cons_of_ne_nil copies
    have deposited : (⟨ledger.count, 0, shape.trim, queued⟩ : Deposit S P) ∈
        ledger.canvas.deposits ledger.count (.visit head (.shape shape)) :=
      (Canvas.mem_deposits _ _ _ _).mpr
        ⟨head, shape, rfl, outlined, state, rfl, rfl, by simp [some]⟩
    refine ⟨⟨ledger.count, 0, shape.trim, queued⟩, ?_, marked.numbered⟩
    have waiting : (ledger.answer (.visit head (.shape shape))).waiting =
        (ledger.canvas.deposits ledger.count (.visit head (.shape shape))).foldl
          (Pile.put ledger.canvas.brush.mark) ledger.waiting := rfl
    rw [waiting, Pile.put_all_made]
    exact List.mem_append_right _ deposited
  · right
    refine ⟨⟨ledger.count, [ledger.count], ledger.canvas.brush.paint shape.path⟩, ?_,
      List.mem_singleton.mpr marked.numbered.symm⟩
    simp [Ledger.coats, drawn, state]

/-- What has been painted stays in order with every call. -/
theorem Painted.step {calls : List (Call S P)} {count : Nat} {ledger : Ledger S P}
    {coats : List (Coat S P)} (marked : Marked calls count ledger)
    (painted : Painted calls count ledger coats) {call : Call S P}
    (comes : calls[count]? = some call) :
    Painted calls (count + 1) (ledger.answer call) (coats ++ ledger.coats call) := by
  obtain ⟨due, inTurn⟩ := marked.coats comes
  have next : (ledger.answer call).canvas = ledger.canvas.answer call := by
    rcases ledger.answer_cases call with ⟨_, _, -, -, answered⟩ | ⟨-, -, answered⟩ <;>
      rw [answered]
  constructor
  case elements =>
    rw [next, ledger.answer_elements call marked.mirrored, painted.elements, List.flatMap_append]
  case settled =>
    intro coat member
    rcases List.mem_append.mp member with old | new
    · obtain ⟨before, settled⟩ := painted.settled coat old
      exact ⟨Nat.lt_succ_of_lt before, settled⟩
    · obtain ⟨now, settled⟩ := due coat new
      rw [now]
      exact ⟨Nat.lt_succ_self _, settled⟩
  case ordered =>
    refine List.pairwise_append.mpr ⟨painted.ordered, inTurn, ?_⟩
    intro earlier old later new
    left
    rw [(due later new).1]
    exact (painted.settled earlier old).1
  case complete =>
    intro number upTo draws
    rcases Nat.lt_succ_iff_lt_or_eq.mp upTo with before | rfl
    · rcases painted.complete number before draws with ⟨deposit, waits, rfl⟩ | ⟨coat, old, shown⟩
      · rcases ledger.answer_cases call with
          ⟨head, window, rfl, -, answered⟩ | ⟨-, -, answered⟩
        · rw [← List.take_append_drop ledger.canvas.brush.mark ledger.waiting,
            List.flatMap_append, List.mem_append] at waits
          rcases waits with left | taken
          · refine .inl ⟨deposit, ?_, rfl⟩
            rw [answered]
            exact left
          · obtain ⟨pile, inPile, made⟩ := List.mem_flatMap.mp taken
            obtain ⟨coat, new, shown⟩ := ledger.coats_taken head window pile inPile deposit made
            exact .inr ⟨coat, List.mem_append_right _ new, shown⟩
        · refine .inl ⟨deposit, ?_, rfl⟩
          rw [answered, Pile.put_all_made]
          exact List.mem_append_left _ waits
      · exact .inr ⟨coat, List.mem_append_left _ old, shown⟩
    · exact (marked.drawn comes draws).imp_right fun ⟨coat, new, shown⟩ =>
        ⟨coat, List.mem_append_right _ new, shown⟩

/-- Every drawing of calls is marked and painted in order, up to any of its calls. -/
theorem drawing_painted (calls : List (Call S P)) (count : Nat) (upTo : count ≤ calls.length) :
    Marked calls count (Ledger.ofCalls (calls.take count)) ∧
      Painted calls count (Ledger.ofCalls (calls.take count))
        (Coat.ofCalls (calls.take count)) := by
  induction count with
  | zero =>
    have nothing : (Ledger.ofCalls ([] : List (Call S P))).waiting = [] := rfl
    rw [List.take_zero]
    constructor
    · exact ⟨rfl, rfl, rfl, Nat.zero_le _, List.pairwise_singleton .., by simp [Inside, nothing],
        by simp [nothing], by simp [nothing], by simp [nothing]⟩
    · exact ⟨rfl, by simp [Coat.ofCalls, Ledger.coatsAll], .nil, fun _ before => by omega⟩
  | succ count inductionHypothesis =>
    obtain ⟨marked, painted⟩ := inductionHypothesis (Nat.le_of_succ_le upTo)
    have comes : calls[count]? = some calls[count] := List.getElem?_eq_getElem upTo
    have ledger : Ledger.ofCalls (calls.take (count + 1)) =
        (Ledger.ofCalls (calls.take count)).answer calls[count] := by
      rw [List.take_add_one, comes]
      exact List.foldl_concat ..
    have coats : Coat.ofCalls (calls.take (count + 1)) =
        Coat.ofCalls (calls.take count) ++
          (Ledger.ofCalls (calls.take count)).coats calls[count] := by
      rw [List.take_add_one, comes]
      exact Ledger.coats_concat ..
    rw [ledger, coats]
    exact ⟨marked.step comes, painted.step marked comes⟩

/-- A drawing of calls that leaves nothing waiting has painted every shape. -/
theorem drawn_coats (calls : List (Call S P)) (settled : (Ledger.ofCalls calls).waiting = [])
    (number : Nat) (draws : Call.Draws calls number) :
    ∃ coat ∈ Coat.ofCalls calls, number ∈ coat.drawn := by
  obtain ⟨-, painted⟩ := drawing_painted calls calls.length (Nat.le_refl _)
  rw [List.take_length] at painted
  obtain ⟨_, _, found, -⟩ := id draws
  rcases painted.complete number (List.getElem?_eq_some_iff.mp found).1 draws with
    ⟨deposit, waits, -⟩ | shown
  · simp [settled] at waits
  · exact shown

/-- Two coats are in the order of the calls that have painted them, and those of one call in the
order in which they have been drawn. -/
theorem coats_in_order (calls : List (Call S P)) (place other : Nat) (first second : Coat S P)
    (firstFound : (Coat.ofCalls calls)[place]? = some first)
    (secondFound : (Coat.ofCalls calls)[other]? = some second) (a b : Nat)
    (inFirst : a ∈ first.drawn) (inSecond : b ∈ second.drawn) (earlier : a < b) :
    (first.call ≤ second.call → place ≤ other) ∧ (second.call < first.call → other < place) := by
  obtain ⟨-, painted⟩ := drawing_painted calls calls.length (Nat.le_refl _)
  rw [List.take_length] at painted
  obtain ⟨firstBound, rfl⟩ := List.getElem?_eq_some_iff.mp firstFound
  obtain ⟨secondBound, rfl⟩ := List.getElem?_eq_some_iff.mp secondFound
  have inOrder := List.pairwise_iff_getElem.mp painted.ordered
  constructor
  · intro due
    by_contra behind
    rcases inOrder other place secondBound firstBound (Nat.lt_of_not_le behind) with
      less | ⟨-, drawn⟩
    · omega
    · have reversed := drawn b inSecond a inFirst
      omega
  · intro overtaken
    by_contra behind
    rcases Nat.lt_or_eq_of_le (Nat.le_of_not_lt behind) with before | rfl
    · rcases inOrder place other firstBound secondBound before with less | ⟨same, -⟩ <;> omega
    · omega

/-- A shape that is painted behind another, which has been drawn after it, waits for the end of a
container in which the other stands too. The other is painted at once, or at the end of a container
that has begun after the first had been drawn. -/
theorem overtaken_waits {calls : List (Call S P)} {a b first second : Nat}
    (firstAt : Call.PaintedAt calls a first) (secondAt : Call.PaintedAt calls b second)
    (earlier : a < b) (overtaken : second < first) :
    Call.Waits calls a ∧ Call.Holds calls first b ∧
      (second = b ∨ ¬ Call.Holds calls second a) := by
  cases firstAt with
  | atOnce =>
    have notBefore : b ≤ second := by
      cases secondAt with
      | atOnce => exact Nat.le_refl _
      | later _ _ taken => exact Nat.le_of_lt taken.later
    omega
  | later _ waits taken =>
    refine ⟨waits, fun number since => taken.holds number (by omega), ?_⟩
    cases secondAt with
    | atOnce => exact .inl rfl
    | later _ _ other =>
      exact .inr (taken.first second (Nat.lt_trans earlier other.later) overtaken other.trims)

/-- The elements in the text of a drawing come in coats, each of one outline. A coat is painted when
the shapes in it are due: a shape that is drawn under no trim, or under one that treats shapes one
by one, at once; any other when the innermost container around it that carries out a trim does so.

Of two shapes the one that is drawn first comes first, or both are in one coat, unless the other is
due before it. Then it waits for the end of a container in which the other stands too, and the other
is painted at once, or at the end of a container that has begun after the first had been drawn; and
it comes behind the other.

Proof: what waits behind the mark of a container is what has come since the container began, so that
a trim takes the shapes that are due and leaves the others. -/
theorem painted_when_due [Written S] [Written P] (settings : Trim.Settings)
    (document : Document S) (scene : Scene S P) (reachable : Reachable settings document scene)
    (frame : S) :
    let calls := (scene.update frame).calls
    let coats := Coat.ofCalls calls
    Svg.bodyTags (Canvas.ofCalls calls) =
      coats.flatMap (fun coat => coat.elements.map Svg.elementTag) ∧
    (∀ coat ∈ coats,
      (∃ outline, ∀ element ∈ coat.elements, element.path? = outline) ∧
      ∀ number ∈ coat.drawn, Call.PaintedAt calls number coat.call) ∧
    (∀ number, Call.Draws calls number → ∃ coat ∈ coats, number ∈ coat.drawn) ∧
    ∀ (place other : Nat) (first second : Coat S P),
      coats[place]? = some first → coats[other]? = some second →
      ∀ a ∈ first.drawn, ∀ b ∈ second.drawn, a < b →
        (first.call ≤ second.call → place ≤ other) ∧
        (second.call < first.call → other < place ∧ Call.Waits calls a ∧
          Call.Holds calls first.call b ∧
          (second.call = b ∨ ¬ Call.Holds calls second.call a)) := by
  intro calls coats
  obtain ⟨layers, phrase, bracketed⟩ := Call.scene_phrase reachable frame
  have ended := Ledger.layers_settle phrase
  rw [← bracketed] at ended
  obtain ⟨-, painted⟩ := drawing_painted calls calls.length (Nat.le_refl _)
  rw [List.take_length] at painted
  refine ⟨?_, ?_, drawn_coats calls ended.1, ?_⟩
  · have elements : (Canvas.ofCalls calls).elements = coats.flatMap Coat.elements := by
      rw [← (Ledger.of_calls_records calls).canvas]
      exact painted.elements
    rw [Svg.bodyTags, elements, List.map_flatMap]
  · exact fun coat member => ⟨Ledger.coats_outline _ calls coat member,
      (painted.settled coat member).2⟩
  · intro place other first second firstFound secondFound a inFirst b inSecond earlier
    obtain ⟨kept, reversed⟩ := coats_in_order calls place other first second firstFound secondFound
      a b inFirst inSecond earlier
    refine ⟨kept, fun overtaken => ⟨reversed overtaken, ?_⟩⟩
    exact overtaken_waits
      ((painted.settled first (List.mem_of_getElem? firstFound)).2 a inFirst)
      ((painted.settled second (List.mem_of_getElem? secondFound)).2 b inSecond) earlier overtaken

/-- A layer with a trim, and in it a square in front of a group that has a trim and a smaller square
in it. The trims keep all of the outlines. -/
def nestedTrims : Document Float :=
  let whole : Json.Value := .object [("ty", .text "tm")]
  let red : Json.Value :=
    .object [("c", .object [("k", .list [.natural 1, .natural 0, .natural 0])]), ("ty", .text "fl")]
  let square (side : Nat) : Json.Value :=
    .object [("s", .object [("k", .list [.natural side, .natural side])]), ("ty", .text "rc")]
  let group : Json.Value := .object [("it", .list [square 2, whole]), ("ty", .text "gr")]
  { frameRate := 30
    inPoint := 0
    outPoint := 60
    layers :=
      [.object [("op", .natural 60), ("shapes", .list [group, square 4, red, whole]),
        ("ty", .natural 4)]] }

/-- The smaller square is painted by the trim of its group. -/
theorem small_square_painted :
    let scene : Scene Float Float := Scene.ofDocument {} nestedTrims
    ∃ coat ∈ Coat.ofCalls (scene.update 0).calls, 12 ∈ coat.drawn ∧
      Call.PaintedAt (scene.update 0).calls 12 coat.call := by
  intro scene
  let calls := (scene.update 0).calls
  obtain ⟨-, due, all, -⟩ := painted_when_due {} nestedTrims scene .loaded 0
  have draws : Call.Draws calls 12 := by
    have drawn : ((calls[12]?.bind Call.shape?).map fun entry => entry.2.path.isEmpty) =
        some false := by decide +kernel
    have copied : (Canvas.ofCalls (calls.take 12)).brush.instances.isEmpty = false := by
      decide +kernel
    have copies : (Canvas.ofCalls (calls.take 12)).brush.instances ≠ [] :=
      List.isEmpty_eq_false_iff.mp copied
    cases found : calls[12]? with
    | none => simp [found] at drawn
    | some call =>
      rw [found] at drawn
      cases call with
      | visit head visit =>
        cases visit with
        | shape shape =>
          exact ⟨head, shape, found, fun empty => by simp [Call.shape?, empty] at drawn, copies⟩
        | _ => simp [Call.shape?] at drawn
      | _ => simp [Call.shape?] at drawn
  obtain ⟨coat, member, shown⟩ := all 12 draws
  exact ⟨coat, member, shown, (due coat member).2 12 shown⟩

/-- The larger square, which is drawn first, is painted behind the smaller one, although no element
shows both. -/
theorem larger_square_overtaken :
    let scene : Scene Float Float := Scene.ofDocument {} nestedTrims
    let coats := Coat.ofCalls (scene.update 0).calls
    ¬ ∀ (place other : Nat) (first second : Coat Float Float),
      coats[place]? = some first → coats[other]? = some second →
      first.elements ≠ [] → second.elements ≠ [] →
      ∀ a ∈ first.drawn, ∀ b ∈ second.drawn, a ∉ second.drawn → b ∉ first.drawn → a < b →
        place < other := by
  intro scene coats inTurn
  have painted : coats.map (fun coat => (coat.drawn, coat.elements.isEmpty)) =
      [([12], false), ([7], false)] := by decide +kernel
  obtain ⟨small, rest, shown, smallShows, others⟩ := List.map_eq_cons_iff.mp painted
  obtain ⟨large, last, rfl, largeShows, -⟩ := List.map_eq_cons_iff.mp others
  obtain ⟨smallDrawn, smallShown⟩ := Prod.mk.inj smallShows
  obtain ⟨largeDrawn, largeShown⟩ := Prod.mk.inj largeShows
  have reversed := inTurn 1 0 large small (by rw [shown]; rfl) (by rw [shown]; rfl)
    (List.isEmpty_eq_false_iff.mp largeShown) (List.isEmpty_eq_false_iff.mp smallShown)
    7 (by simp [largeDrawn]) 12 (by simp [smallDrawn]) (by simp [smallDrawn])
    (by simp [largeDrawn]) (by omega)
  omega

end VectorMotion.Render
