import VectorMotion.Proofs.Scalar.Exact
import VectorMotion.Proofs.Scene.Lookup

/-!
# The stops of two ramps

A gradient with opacities is drawn by the stops of two ramps. At every offset of either of them both
are evaluated. With exact arithmetic this makes nothing up: the stops that are drawn come in the order
of their offsets, each offset once and none of its own, and at an authored offset a ramp has the value
that it was given there.

It was given more than one where several of its stops share an offset, as on both sides of an edge.
Evaluated, a ramp has one value at one offset, that of the first of these stops. So all stops of a ramp
are kept exactly if it has no edges.
-/

namespace VectorMotion.Scene.GradientStop

variable {S V : Type} [Scalar S]

/-- The value of the first stop of a ramp at an offset. -/
def firstAt? (ramp : List (RampStop S V)) (offset : S) : Option V :=
  (ramp.find? fun stop => stop.1 == offset).map (·.2)

/-- The colour stops of a table that begins with so many of them. -/
abbrev colorsOf (table : List S) (count : Nat) : List (RampStop S (Rgba S)) :=
  colorRamp (table.take (count * 4))

/-- The opacity stops behind them. -/
abbrev alphasOf (table : List S) (count : Nat) : List (RampStop S S) :=
  alphaRamp (table.drop (count * 4))

/-- Ramps whose stops come in the order of their offsets. -/
def Ordered (ramp : List (RampStop S V)) : Prop := ramp.Pairwise fun stop next => stop.1 ≤ next.1

/-- Ramps without edges: stops at one offset have one value. -/
def Unbroken (ramp : List (RampStop S V)) : Prop :=
  ∀ stop ∈ ramp, ∀ other ∈ ramp, stop.1 = other.1 → stop.2 = other.2

/-- The colour of a stop without its opacity. -/
def hue (stop : GradientStop S) : Rgba S := { stop.color with alpha := 1 }

/-- Colour stops have no opacity of their own. -/
theorem color_ramp_opaque (table : List S) : ∀ stop ∈ colorRamp table, stop.2.alpha = 1 := by
  fun_induction colorRamp table with
  | case1 offset red green blue rest inductionHypothesis =>
    exact List.forall_mem_cons.mpr ⟨rfl, inductionHypothesis⟩
  | case2 => simp

section Offsets

/-- Two offsets compare as equal exactly if they are. -/
theorem same_offset (a b : ℝ) : (a == b) = true ↔ a = b := by simp [BEq.beq]

/-- Leaving out repeated offsets leaves out no offset altogether. -/
theorem mem_without_repeats (last offset : ℝ) (rest : List ℝ) :
    offset ∈ last :: withoutRepeats last rest ↔ offset ∈ last :: rest := by
  fun_induction withoutRepeats last rest with
  | case1 => rfl
  | case2 last next rest repeated inductionHypothesis =>
    obtain rfl := (same_offset next last).mp repeated
    rw [inductionHypothesis]
    simp
  | case3 last next rest different inductionHypothesis =>
    rw [List.mem_cons, inductionHypothesis, ← List.mem_cons]

/-- Offsets in order, without what repeats the one before, are in order and no two of them are the
same. -/
theorem without_repeats_ascending (last : ℝ) (rest : List ℝ)
    (ordered : (last :: rest).Pairwise (· ≤ ·)) :
    (last :: withoutRepeats last rest).Pairwise (· < ·) := by
  fun_induction withoutRepeats last rest with
  | case1 => simp
  | case2 last next rest repeated inductionHypothesis =>
    obtain rfl := (same_offset next last).mp repeated
    exact inductionHypothesis ordered.tail
  | case3 last next rest different inductionHypothesis =>
    have ascending := inductionHypothesis ordered.tail
    have above : last < next :=
      lt_of_le_of_ne (List.rel_of_pairwise_cons ordered List.mem_cons_self) fun same =>
        different ((same_offset next last).mpr same.symm)
    refine List.pairwise_cons.mpr ⟨List.forall_mem_cons.mpr ⟨above, fun later member => ?_⟩, ascending⟩
    exact above.trans (List.rel_of_pairwise_cons ascending member)

variable (colors : List (RampStop ℝ (Rgba ℝ))) (alphas : List (RampStop ℝ ℝ))

/-- The merged offsets are those of the colours and those of the opacities. -/
theorem mem_merged (offset : ℝ) : offset ∈ mergedOffsets colors alphas ↔
    offset ∈ colors.map (·.1) ∨ offset ∈ alphas.map (·.1) := by
  have sorted : offset ∈ (colors.map (·.1) ++ alphas.map (·.1)).mergeSort Scalar.precedes ↔ _ :=
    List.mem_mergeSort
  rw [← List.mem_append, ← sorted, mergedOffsets]
  split
  next none => rw [none]
  next first rest some => rw [some, mem_without_repeats]

/-- The merged offsets rise strictly, so none of them is repeated. -/
theorem merged_ascending : (mergedOffsets colors alphas).Pairwise (· < ·) := by
  have sorted : ((colors.map (·.1) ++ alphas.map (·.1)).mergeSort Scalar.precedes).Pairwise
      (· ≤ ·) := by
    refine (List.pairwise_mergeSort ?_ ?_ _).imp fun precedes => of_decide_eq_true precedes
    · intro a b c first second
      exact decide_eq_true ((of_decide_eq_true first).trans (of_decide_eq_true second))
    · intro a b
      rw [Bool.or_eq_true]
      exact (le_total a b).imp decide_eq_true decide_eq_true
  rw [mergedOffsets]
  split
  next => exact .nil
  next first rest some => exact without_repeats_ascending first rest (some ▸ sorted)

end Offsets

section Places

variable {ramp : List (RampStop ℝ V)} {offset : ℝ} {value : V}

/-- The first stop at an offset has all stops before it at lesser offsets. -/
theorem first_split (ordered : Ordered ramp) (first : firstAt? ramp offset = some value) :
    ∃ before after, ramp = before ++ (offset, value) :: after ∧
      ∀ stop ∈ before, stop.1 < offset := by
  obtain ⟨⟨_, _⟩, found, rfl⟩ := Option.map_eq_some_iff.mp first
  obtain ⟨here, before, after, rfl, others⟩ := List.find?_eq_some_iff_append.mp found
  obtain rfl := (same_offset _ _).mp here
  refine ⟨before, after, rfl, fun stop member => ?_⟩
  have below := (List.pairwise_append.mp ordered).2.2 stop member _ List.mem_cons_self
  refine lt_of_le_of_ne below fun same => ?_
  simpa [(same_offset _ _).mpr same] using others stop member

/-- An offset behind the first stop of a ramp is at the end of the stretch that leads to the first
stop there. -/
theorem place_after_stop (value : V) (low : RampStop ℝ V) (between after : List (RampStop ℝ V))
    (below : ∀ stop ∈ low :: between, stop.1 < offset) :
    ∃ place, placeAfter offset low (between ++ (offset, value) :: after) = place ∧
      place.high = value ∧ place.ratio = 1 := by
  induction between generalizing low with
  | nil =>
    have lowBelow : low.1 < offset := below low List.mem_cons_self
    have long : offset - low.1 ≠ 0 := (sub_pos.mpr lowBelow).ne'
    refine ⟨⟨low.2, value, 1⟩, ?_, rfl, rfl⟩
    rw [List.nil_append, placeAfter, if_pos (by simp [lowBelow.le])]
    simp only [Exact.numeral_zero]
    rw [if_neg (mt (same_offset _ _).mp long), div_self long]
  | cons next between inductionHypothesis =>
    obtain ⟨-, later⟩ := List.forall_mem_cons.mp below
    have passed : ¬ offset ≤ next.1 := not_le.mpr (later next List.mem_cons_self)
    rw [List.cons_append, placeAfter, if_neg (by simp [passed])]
    exact inductionHypothesis next later

/-- Where a ramp has stops, its place is at the first of them: at the start of the way that leads on
from it, or at the end of the one that leads to it. -/
theorem place_first (ordered : Ordered ramp) (first : firstAt? ramp offset = some value) :
    ∃ place, place? ramp offset = some place ∧
      (place.low = value ∧ place.ratio = 0 ∨ place.high = value ∧ place.ratio = 1) := by
  obtain ⟨before, after, rfl, below⟩ := first_split ordered first
  cases before with
  | nil =>
    refine ⟨⟨value, (after.headD (offset, value)).2, 0⟩, ?_, .inl ⟨rfl, rfl⟩⟩
    rw [List.nil_append, place?, if_pos le_rfl, Exact.numeral_zero]
  | cons low between =>
    obtain ⟨place, found, atEnd⟩ :=
      place_after_stop value low between after below
    refine ⟨place, ?_, .inr atEnd⟩
    have passed : ¬ offset ≤ low.1 := not_le.mpr (below low List.mem_cons_self)
    rw [List.cons_append, place?, if_neg passed, found]

/-- At an offset of its stops a ramp of colours has the colour of the first of them. -/
theorem color_first {ramp : List (RampStop ℝ (Rgba ℝ))} {color : Rgba ℝ} (ordered : Ordered ramp)
    (first : firstAt? ramp offset = some color) : colorAt ramp offset = color := by
  obtain ⟨place, found, atStop⟩ := place_first ordered first
  rw [colorAt, found]
  rcases atStop with ⟨rfl, ratio⟩ | ⟨rfl, ratio⟩ <;> ext <;> simp [Rgba.lerp, ratio]

/-- At an offset of its stops a ramp of opacities has the opacity of the first of them. -/
theorem alpha_first {ramp : List (RampStop ℝ ℝ)} {alpha : ℝ} (ordered : Ordered ramp)
    (first : firstAt? ramp offset = some alpha) : alphaAt ramp offset = alpha := by
  obtain ⟨place, found, atStop⟩ := place_first ordered first
  rw [alphaAt, found]
  rcases atStop with ⟨rfl, ratio⟩ | ⟨rfl, ratio⟩ <;> simp [Blend.number, ratio]

end Places

section Stops

/-- The first stop at the offset of a stop is one of the ramp. -/
theorem first_among {ramp : List (RampStop ℝ V)} {stop : RampStop ℝ V} (member : stop ∈ ramp) :
    ∃ first ∈ ramp, first.1 = stop.1 ∧ firstAt? ramp stop.1 = some first.2 := by
  let here (other : RampStop ℝ V) : Bool := other.1 == stop.1
  have present : (ramp.find? here).isSome = true :=
    List.find?_isSome.mpr ⟨stop, member, (same_offset _ _).mpr rfl⟩
  obtain ⟨first, found⟩ := Option.isSome_iff_exists.mp present
  have isHere : here first = true := List.find?_some found
  refine ⟨first, List.mem_of_find?_eq_some found, (same_offset _ _).mp isHere, ?_⟩
  exact congrArg (Option.map fun stop : RampStop ℝ V => stop.2) found

/-- If every offset of a ramp is drawn, with the value of the first stop there, then all stops are
drawn exactly if the ramp has no edges. -/
theorem all_drawn_iff {ramp : List (RampStop ℝ V)} {stops : List (GradientStop ℝ)}
    (value : GradientStop ℝ → V) (drawn : ∀ authored ∈ ramp, authored.1 ∈ stops.map (·.offset))
    (shows : ∀ stop ∈ stops, ∀ first ∈ firstAt? ramp stop.offset, value stop = first) :
    (∀ authored ∈ ramp, ∃ stop ∈ stops, stop.offset = authored.1 ∧ value stop = authored.2) ↔
      Unbroken ramp := by
  constructor
  · intro all authored member other otherMember same
    obtain ⟨stop, isStop, atOffset, is⟩ := all authored member
    obtain ⟨stop', isStop', atOffset', is'⟩ := all other otherMember
    obtain ⟨first, -, -, found⟩ := first_among member
    rw [← is, ← is', shows stop isStop first.2 (by rw [atOffset, found]; rfl),
      shows stop' isStop' first.2 (by rw [atOffset', ← same, found]; rfl)]
  · intro unbroken authored member
    obtain ⟨stop, isStop, atOffset⟩ := List.mem_map.mp (drawn authored member)
    obtain ⟨first, isFirst, same, found⟩ := first_among member
    refine ⟨stop, isStop, atOffset, ?_⟩
    rw [shows stop isStop first.2 (by rw [atOffset, found]; rfl)]
    exact unbroken first isFirst authored member same

variable {table : List ℝ} {count : ℕ}

/-- Where there are opacity stops, both ramps are evaluated at all offsets. -/
theorem expanded (filled : alphasOf table count ≠ []) : expand table count =
    (mergedOffsets (colorsOf table count) (alphasOf table count)).map fun offset =>
      ⟨offset, { colorAt (colorsOf table count) offset with
        alpha := alphaAt (alphasOf table count) offset }⟩ :=
  if_neg (by simpa using filled)

/-- The offsets that are drawn. -/
theorem expanded_offsets (filled : alphasOf table count ≠ []) :
    (expand table count).map (·.offset) =
      mergedOffsets (colorsOf table count) (alphasOf table count) := by
  rw [expanded filled, List.map_map]
  exact List.map_id _

/-- A drawn stop has the colour of the first colour stop at its offset. -/
theorem expanded_hue (filled : alphasOf table count ≠ []) (ordered : Ordered (colorsOf table count))
    {stop : GradientStop ℝ} (member : stop ∈ expand table count) {color : Rgba ℝ}
    (first : firstAt? (colorsOf table count) stop.offset = some color) : stop.hue = color := by
  rw [expanded filled] at member
  obtain ⟨offset, -, rfl⟩ := List.mem_map.mp member
  obtain ⟨authored, found, rfl⟩ := Option.map_eq_some_iff.mp first
  have isOpaque := color_ramp_opaque _ authored (List.mem_of_find?_eq_some found)
  have shown := color_first ordered first
  rw [hue, shown, ← isOpaque]

/-- A drawn stop has the opacity of the first opacity stop at its offset. -/
theorem expanded_alpha (filled : alphasOf table count ≠ []) (ordered : Ordered (alphasOf table count))
    {stop : GradientStop ℝ} (member : stop ∈ expand table count) {alpha : ℝ}
    (first : firstAt? (alphasOf table count) stop.offset = some alpha) :
    stop.color.alpha = alpha := by
  rw [expanded filled] at member
  obtain ⟨offset, -, rfl⟩ := List.mem_map.mp member
  exact alpha_first ordered first

/-- Merging two ramps keeps their stops, except behind an edge. The drawn stops come in the order of
their offsets, each offset once, and the offsets are those of the authored stops. A drawn stop has the
colour of the first colour stop at its offset and the opacity of the first opacity stop there. So every
colour stop is drawn, at its offset and with its colour, exactly if no two at one offset differ, and
likewise every opacity stop. -/
theorem stops_merged (table : List ℝ) (count : ℕ) (colorsOrdered : Ordered (colorsOf table count))
    (alphasOrdered : Ordered (alphasOf table count)) (filled : alphasOf table count ≠ []) :
    let colors := colorsOf table count
    let alphas := alphasOf table count
    let stops := expand table count
    (stops.Pairwise fun stop next => stop.offset < next.offset) ∧
    (∀ offset, offset ∈ stops.map (·.offset) ↔
      offset ∈ colors.map (·.1) ∨ offset ∈ alphas.map (·.1)) ∧
    (∀ stop ∈ stops, (∀ color ∈ firstAt? colors stop.offset, stop.hue = color) ∧
      ∀ alpha ∈ firstAt? alphas stop.offset, stop.color.alpha = alpha) ∧
    ((∀ color ∈ colors, ∃ stop ∈ stops, stop.offset = color.1 ∧ stop.hue = color.2) ↔
      Unbroken colors) ∧
    ((∀ alpha ∈ alphas, ∃ stop ∈ stops, stop.offset = alpha.1 ∧ stop.color.alpha = alpha.2) ↔
      Unbroken alphas) := by
  intro colors alphas stops
  have offsets (offset : ℝ) : offset ∈ stops.map (·.offset) ↔
      offset ∈ colors.map (·.1) ∨ offset ∈ alphas.map (·.1) := by
    rw [expanded_offsets filled, mem_merged]
  have hues : ∀ stop ∈ stops, ∀ color ∈ firstAt? colors stop.offset, stop.hue = color :=
    fun _ member _ first => expanded_hue filled colorsOrdered member first
  have opacities : ∀ stop ∈ stops, ∀ alpha ∈ firstAt? alphas stop.offset,
      stop.color.alpha = alpha :=
    fun _ member _ first => expanded_alpha filled alphasOrdered member first
  refine ⟨?_, offsets, fun stop member => ⟨hues stop member, opacities stop member⟩, ?_, ?_⟩
  · have ascending := merged_ascending colors alphas
    rw [← expanded_offsets filled] at ascending
    exact List.pairwise_map.mp ascending
  · exact all_drawn_iff hue
      (fun color member => (offsets _).mpr (.inl (List.mem_map_of_mem member))) hues
  · exact all_drawn_iff (·.color.alpha)
      (fun alpha member => (offsets _).mpr (.inr (List.mem_map_of_mem member))) opacities

/-- From white to black, with a hole in the middle. -/
noncomputable def hole : List ℝ := [0, 1, 1, 1, 1, 0, 0, 0, 0, 1, 1 / 2, 0, 1, 1]

/-- Both ends are drawn as they are authored, and the hole between them. -/
theorem stops_merged_hole :
    (∃ stop ∈ expand hole 2, stop.offset = 0 ∧ stop.hue = ⟨1, 1, 1, 1⟩) ∧
      (∃ stop ∈ expand hole 2, stop.offset = 1 ∧ stop.hue = ⟨0, 0, 0, 1⟩) ∧
      ∃ stop ∈ expand hole 2, stop.offset = 1 / 2 ∧ stop.color.alpha = 0 := by
  have colors : colorsOf hole 2 = [(0, ⟨1, 1, 1, 1⟩), (1, ⟨0, 0, 0, 1⟩)] := by
    simp [colorsOf, hole, colorRamp, Exact.numeral_one]
  have alphas : alphasOf hole 2 = [(0, 1), (1 / 2, 0), (1, 1)] := by
    simp [alphasOf, hole, alphaRamp]
  obtain ⟨-, -, -, colorsDrawn, alphasDrawn⟩ := stops_merged hole 2
    (by rw [colors]; simp [Ordered]) (by rw [alphas]; norm_num [Ordered]) (by rw [alphas]; simp)
  rw [colors] at colorsDrawn
  rw [alphas] at alphasDrawn
  have colorsKept := colorsDrawn.mpr (by simp [Unbroken])
  have alphasKept := alphasDrawn.mpr (by norm_num [Unbroken])
  exact ⟨colorsKept (0, ⟨1, 1, 1, 1⟩) (by simp), colorsKept (1, ⟨0, 0, 0, 1⟩) (by simp),
    alphasKept (1 / 2, 0) (by simp)⟩

/-- Red up to the middle and blue from there on, and opaque throughout. -/
noncomputable def edge : List ℝ :=
  [0, 1, 0, 0, 1 / 2, 1, 0, 0, 1 / 2, 0, 0, 1, 1, 0, 0, 1, 0, 1, 1, 1]

/-- The blue at the edge is not drawn, though both ramps are in order. -/
theorem edge_lost :
    Ordered (colorsOf edge 4) ∧ Ordered (alphasOf edge 4) ∧
      (1 / 2, ⟨0, 0, 1, 1⟩) ∈ colorsOf edge 4 ∧
      ¬ ∃ stop ∈ expand edge 4, stop.offset = 1 / 2 ∧ stop.hue = ⟨0, 0, 1, 1⟩ := by
  have colors : colorsOf edge 4 = [(0, ⟨1, 0, 0, 1⟩), (1 / 2, ⟨1, 0, 0, 1⟩),
      (1 / 2, ⟨0, 0, 1, 1⟩), (1, ⟨0, 0, 1, 1⟩)] := by
    simp [colorsOf, edge, colorRamp, Exact.numeral_one]
  have alphas : alphasOf edge 4 = [(0, 1), (1, 1)] := by
    simp [alphasOf, edge, alphaRamp]
  have ordered : Ordered (colorsOf edge 4) := by
    rw [colors]
    norm_num [Ordered]
  refine ⟨ordered, by rw [alphas]; simp [Ordered], by rw [colors]; simp, ?_⟩
  rintro ⟨stop, member, atEdge, blue⟩
  have red : stop.hue = ⟨1, 0, 0, 1⟩ := by
    apply expanded_hue (by rw [alphas]; simp) ordered member
    rw [atEdge, colors]
    simp [firstAt?, BEq.beq]
  rw [red] at blue
  norm_num at blue

end Stops

end VectorMotion.Scene.GradientStop
