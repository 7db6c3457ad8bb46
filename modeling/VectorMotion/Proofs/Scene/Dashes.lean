import Mathlib.Algebra.Order.BigOperators.Group.List
import VectorMotion.Proofs.Scalar.Exact
import VectorMotion.Scene.Paint

/-!
# What a dashed stroke draws

The lengths of a dash list are laid end to end along the stroke, over and over in both directions, and
by turns what is under them is drawn and left out. Where the list is at the beginning of the stroke is
its offset. A list of an odd number of lengths is left out the second time where it is drawn the first
time, so it comes back to its beginning only after two rounds.

The pattern of a stroke has an even number of lengths and an offset that is not below zero and within
one round. It draws what its dash list draws.
-/

namespace VectorMotion.Scene

namespace DashPattern

/-! ## Lengths laid end to end -/

/-- Where a stretch begins. Stretches are counted from the one that begins at zero, those in front of
it by negative numbers. -/
noncomputable def edge (lengths : List ℝ) (stretch : ℤ) : ℝ :=
  (stretch / lengths.length : ℤ) * lengths.sum +
    (lengths.take (stretch % lengths.length).toNat).sum

/-- Whether a place is in a stretch. The place at which it ends is in the next one. -/
def InStretch (lengths : List ℝ) (place : ℝ) (stretch : ℤ) : Prop :=
  edge lengths stretch ≤ place ∧ place < edge lengths (stretch + 1)

/-- Whether what is at a place is drawn: every other stretch is, that at zero among them. -/
def Drawn (lengths : List ℝ) (place : ℝ) : Prop :=
  ∃ stretch : ℤ, Even stretch ∧ InStretch lengths place stretch

section Edges

variable {lengths : List ℝ} (filled : lengths ≠ [])

include filled

/-- Where a stretch of a round begins, or the next round. -/
theorem edge_at (round : ℤ) {index : ℕ} (inRound : index ≤ lengths.length) :
    edge lengths (round * lengths.length + index) =
      round * lengths.sum + (lengths.take index).sum := by
  have positive : (0 : ℤ) < lengths.length := by
    exact_mod_cast List.length_pos_of_ne_nil filled
  rw [edge, add_comm (round * _), Int.add_mul_ediv_right _ _ positive.ne', Int.add_mul_emod_self_right]
  obtain less | rfl := inRound.lt_or_eq
  · rw [Int.ediv_eq_zero_of_lt (by omega) (by omega), Int.emod_eq_of_lt (by omega) (by omega), zero_add,
      Int.toNat_natCast]
  · rw [Int.ediv_self positive.ne', Int.emod_self, List.take_length]
    simp only [Int.toNat_zero, List.take_zero, List.sum_nil]
    push_cast
    ring

/-- Each stretch stands at an index in a round. -/
theorem stretch_in_round (stretch : ℤ) : ∃ (round : ℤ) (index : ℕ), index < lengths.length ∧
    stretch = round * lengths.length + index := by
  have positive : (0 : ℤ) < lengths.length := by
    exact_mod_cast List.length_pos_of_ne_nil filled
  have nonneg := Int.emod_nonneg stretch positive.ne'
  have less := Int.emod_lt_of_pos stretch positive
  refine ⟨stretch / lengths.length, (stretch % lengths.length).toNat, by omega, ?_⟩
  rw [Int.toNat_of_nonneg nonneg, mul_comm, Int.mul_ediv_add_emod]

/-- All rounds are alike. -/
theorem edge_rounds (stretch rounds : ℤ) : edge lengths (stretch + rounds * lengths.length) =
    edge lengths stretch + rounds * lengths.sum := by
  obtain ⟨round, index, less, rfl⟩ := stretch_in_round filled stretch
  have moved : round * (lengths.length : ℤ) + index + rounds * lengths.length =
      (round + rounds) * lengths.length + index := by ring
  rw [moved, edge_at filled _ less.le, edge_at filled _ less.le]
  push_cast
  ring

/-- Written twice, a list has its stretches where it had them. -/
theorem edge_twice (stretch : ℤ) : edge (lengths ++ lengths) stretch = edge lengths stretch := by
  have both : lengths ++ lengths ≠ [] := by simpa using filled
  obtain ⟨round, index, less, rfl⟩ := stretch_in_round both stretch
  rw [edge_at both _ less.le, List.sum_append]
  rw [List.length_append] at less ⊢
  obtain first | second := lt_or_ge index lengths.length
  · have moved : round * ((lengths.length + lengths.length : ℕ) : ℤ) + index =
        2 * round * lengths.length + index := by push_cast; ring
    rw [moved, edge_at filled _ first.le, List.take_append_of_le_length first.le]
    push_cast
    ring
  · obtain ⟨index, rfl⟩ := Nat.exists_eq_add_of_le second
    have moved : round * ((lengths.length + lengths.length : ℕ) : ℤ) +
        (lengths.length + index : ℕ) = (2 * round + 1) * lengths.length + index := by
      push_cast
      ring
    rw [moved, edge_at filled _ (by omega), List.take_length_add_append, List.sum_append]
    push_cast
    ring

/-- No stretch ends before it begins. -/
theorem edge_mono (nonneg : ∀ length ∈ lengths, 0 ≤ length) : Monotone (edge lengths) := by
  refine monotone_int_of_le_succ fun stretch => ?_
  obtain ⟨round, index, less, rfl⟩ := stretch_in_round filled stretch
  have next : round * (lengths.length : ℤ) + index + 1 =
      round * lengths.length + (index + 1 : ℕ) := by push_cast; ring
  rw [next, edge_at filled _ less.le, edge_at filled _ less, List.sum_take_succ _ _ less]
  have own : 0 ≤ lengths[index] := nonneg _ (List.getElem_mem less)
  linarith

/-- Each place is in one stretch, and in no other one. -/
theorem one_stretch (nonneg : ∀ length ∈ lengths, 0 ≤ length) (positive : 0 < lengths.sum)
    (place : ℝ) : ∃! stretch, InStretch lengths place stretch := by
  have mono := edge_mono filled nonneg
  have turn (round : ℤ) : edge lengths (round * lengths.length) = round * lengths.sum := by
    simpa using edge_at filled round (Nat.zero_le _)
  have started : edge lengths (⌊place / lengths.sum⌋ * lengths.length) ≤ place := by
    rw [turn]
    exact (le_div_iff₀ positive).mp (Int.floor_le _)
  have ended : place < edge lengths ((⌊place / lengths.sum⌋ + 1) * lengths.length) := by
    rw [turn]
    push_cast
    exact (div_lt_iff₀ positive).mp (Int.lt_floor_add_one _)
  -- The stretch is the last one that has begun. There is a last one, since the next round has not.
  obtain ⟨stretch, begun, last⟩ := Int.exists_greatest_of_bdd (P := fun k => edge lengths k ≤ place)
    ⟨_, fun k begun => (mono.reflect_lt (begun.trans_lt ended)).le⟩ ⟨_, started⟩
  refine ⟨stretch, ⟨begun, ?_⟩, ?_⟩
  · by_contra next
    exact absurd (last _ (not_lt.mp next)) (by omega)
  · rintro other ⟨otherBegun, unended⟩
    have notBehind : stretch ≤ other := by
      have := mono.reflect_lt (begun.trans_lt unended)
      omega
    exact le_antisymm (last _ otherBegun) notBehind

/-- A stretch and a place that are moved by the same rounds stay where they are to each other. -/
theorem in_stretch_rounds (place : ℝ) (stretch rounds : ℤ) :
    InStretch lengths (place + rounds * lengths.sum) (stretch + rounds * lengths.length) ↔
      InStretch lengths place stretch := by
  rw [InStretch, add_right_comm, edge_rounds filled, edge_rounds filled, add_le_add_iff_right,
    add_lt_add_iff_right, InStretch]

/-- With an even number of lengths, all rounds are drawn alike. -/
theorem drawn_rounds (even : Even lengths.length) (place : ℝ) (rounds : ℤ) :
    Drawn lengths (place + rounds * lengths.sum) ↔ Drawn lengths place := by
  have moved (stretch : ℤ) : Even (stretch + rounds * lengths.length) ↔ Even stretch := by
    have turn : Even (rounds * (lengths.length : ℤ)) :=
      ((Int.even_coe_nat _).mpr even).mul_left rounds
    simp only [Int.even_add, turn, iff_true]
  constructor
  · rintro ⟨stretch, drawn, inside⟩
    refine ⟨stretch - rounds * lengths.length, ?_, ?_⟩
    · rwa [← moved, sub_add_cancel]
    · rwa [← in_stretch_rounds filled, sub_add_cancel]
  · rintro ⟨stretch, drawn, inside⟩
    exact ⟨_, (moved stretch).mpr drawn, (in_stretch_rounds filled _ _ _).mpr inside⟩

/-- Made even, a list draws what it drew. -/
theorem drawn_evened (place : ℝ) : Drawn (evened lengths) place ↔ Drawn lengths place := by
  unfold evened
  split
  · rfl
  · simp only [Drawn, InStretch, edge_twice filled]

end Edges

/-! ## The pattern of a list -/

/-- An evened pattern has an even number of lengths. -/
theorem evened_even (lengths : List ℝ) : Even (evened lengths).length := by
  unfold evened
  split
  case isTrue even => exact Nat.even_iff.mpr (beq_iff_eq.mp even)
  case isFalse => simp

/-- An evened pattern is empty only if the pattern was. -/
theorem evened_filled {lengths : List ℝ} (filled : lengths ≠ []) : evened lengths ≠ [] := by
  unfold evened
  split
  · exact filled
  · simpa using filled

/-- Evening keeps the total length of a pattern above zero. -/
theorem evened_positive {lengths : List ℝ} (positive : 0 < lengths.sum) :
    0 < (evened lengths).sum := by
  unfold evened
  split
  · exact positive
  · rw [List.sum_append]
    exact add_pos positive positive

/-- The period of a pattern is the sum of its lengths. -/
theorem period_sum (lengths : List ℝ) : period lengths = lengths.sum := by
  rw [period, List.sum_eq_foldl, Exact.numeral_zero]

/-- Started at the offset brought into one round, the lengths made even draw what the list draws from
the offset itself: the two places are whole rounds apart. -/
theorem drawn_wrapped {stretches : List ℝ} (positive : 0 < stretches.sum) (offset : ℝ) :
    let lengths := evened stretches
    let start := Scalar.wrap offset (period lengths)
    0 ≤ start ∧ start < lengths.sum ∧
      ∀ place, Drawn lengths (start + place) ↔ Drawn stretches (offset + place) := by
  intro lengths start
  have filled : stretches ≠ [] := by
    rintro rfl
    exact positive.ne' List.sum_nil
  have round : 0 < lengths.sum := evened_positive positive
  have wrapped : start = Int.fract (offset / lengths.sum) * lengths.sum := by
    rw [← period_sum] at round ⊢
    exact Exact.wrapped offset round
  have apart : offset = start + ⌊offset / lengths.sum⌋ * lengths.sum := by
    rw [wrapped, ← add_mul, Int.fract_add_floor, div_mul_cancel₀ _ round.ne']
  refine ⟨?_, ?_, fun place => ?_⟩
  · rw [wrapped]
    exact mul_nonneg (Int.fract_nonneg _) round.le
  · rw [wrapped]
    exact mul_lt_of_lt_one_left round (Int.fract_lt_one _)
  · calc
      Drawn lengths (start + place) ↔
          Drawn lengths (start + place + ⌊offset / lengths.sum⌋ * lengths.sum) :=
        (drawn_rounds (evened_filled filled) (evened_even _) _ _).symm
      _ ↔ Drawn lengths (offset + place) := by rw [add_right_comm, ← apart]
      _ ↔ Drawn stretches (offset + place) := drawn_evened filled _

end DashPattern

/-! ## The stroke of a document -/

section Authored

variable (authored : Document.Stroke ℝ) (times : List ℝ)

/-- The number of an entry of a dash list when it was brought to some times, one after the other. -/
noncomputable def dashNumber (entry : Document.Dash ℝ) : ℝ :=
  (times.foldl Track.update (amount 0 entry.value)).value

/-- The lengths in a dash list: those of the entries that are named for a dash or a gap. Whether a
stretch is drawn is said by its place in the list alone. -/
noncomputable def dashStretches : List ℝ :=
  (authored.dashes.filter fun entry => entry.name ∈ [some "d", some "v", some "g"]).map
    (dashNumber times)

/-- Where a dash list is at the beginning of the stroke: the number of the last entry that is named
for the offset. -/
noncomputable def dashOffset : ℝ :=
  ((authored.dashes.filter fun entry => entry.name = some "o").map (dashNumber times)).getLast?.getD 0

/-- Updates give each entry the number of its time, and take none away. -/
theorem updated_entries :
    ((times.foldl Stroke.update (.ofDocument authored)).dashes.map
      fun entry => (entry.role, entry.length.value)) =
    authored.dashes.filterMap fun entry =>
      (DashRole.ofName entry.name).map fun role => (role, dashNumber times entry) := by
  have updated (stroke : Stroke ℝ) : (times.foldl Stroke.update stroke).dashes =
      stroke.dashes.map fun entry => ⟨entry.role, times.foldl Track.update entry.length⟩ := by
    induction times generalizing stroke with
    | nil => simp
    | cons time rest inductionHypothesis =>
      rw [List.foldl_cons, inductionHypothesis, Stroke.update, List.map_map]
      rfl
  rw [updated, Stroke.ofDocument, List.map_map, List.map_filterMap]
  congr 1
  funext entry
  rw [DashEntry.ofDocument, Option.map_map, dashNumber, ← Exact.numeral_zero]
  rfl

/-- A dash entry is the offset exactly if that is its name. -/
theorem DashRole.offset_name (name : Option String) :
    DashRole.ofName name = some .offset ↔ name = some "o" := by
  unfold DashRole.ofName
  split <;> simp_all

/-- The entries that are taken for stretches are those that are named for one. -/
theorem entry_stretches (entries : List (Document.Dash ℝ)) :
    (entries.filterMap fun entry =>
      (DashRole.ofName entry.name).map fun role => (role, dashNumber times entry)).filterMap
        (fun (role, length) => if role == .offset then none else some length) =
    (entries.filter fun entry => entry.name ∈ [some "d", some "v", some "g"]).map
      (dashNumber times) := by
  rw [List.filterMap_filterMap, ← List.filterMap_eq_filter, List.map_filterMap]
  congr 1
  funext entry
  unfold DashRole.ofName
  split <;> simp_all [Option.guard]

/-- The last entry that is named for the offset decides. -/
theorem entry_offset (entries : List (Document.Dash ℝ)) (start : ℝ) :
    (entries.filterMap fun entry =>
      (DashRole.ofName entry.name).map fun role => (role, dashNumber times entry)).foldl
        (fun offset (role, length) => if role == .offset then length else offset) start =
    ((entries.filter fun entry => entry.name = some "o").map
      (dashNumber times)).getLast?.getD start := by
  induction entries generalizing start with
  | nil => rfl
  | cons entry rest inductionHypothesis =>
    have offsetName := DashRole.offset_name entry.name
    simp only [List.filterMap_cons, List.filter_cons, ← offsetName]
    cases DashRole.ofName entry.name with
    | none => simpa using inductionHypothesis start
    | some role =>
      rw [Option.map_some, List.foldl_cons, inductionHypothesis]
      cases role with
      | dash | gap => rfl
      | offset =>
        simp only [decide_true, if_true, List.map_cons, List.getLast?_cons]
        rfl

/-- A stroke of a document, brought to any times one after the other, is dashed as its dash list says,
if no length of the list is below zero and not all are zero. Its pattern has an even number of lengths
and starts within its first round, and at every distance along the stroke it draws what the dash list
draws there, laid out over and over from its offset. At each place exactly one stretch of the list
decides. -/
theorem dashed_as_authored (nonneg : ∀ length ∈ dashStretches authored times, 0 ≤ length)
    (positive : 0 < (dashStretches authored times).sum) :
    ∃ pattern, (times.foldl Stroke.update (.ofDocument authored)).dashPattern = some pattern ∧
      Even pattern.lengths.length ∧ 0 ≤ pattern.offset ∧ pattern.offset < pattern.lengths.sum ∧
      ∀ distance,
        (∃! stretch, DashPattern.InStretch (dashStretches authored times)
          (dashOffset authored times + distance) stretch) ∧
        (DashPattern.Drawn pattern.lengths (pattern.offset + distance) ↔
          DashPattern.Drawn (dashStretches authored times) (dashOffset authored times + distance)) := by
  have filled : dashStretches authored times ≠ [] := by
    intro none
    rw [none] at positive
    exact positive.ne' List.sum_nil
  set lengths := DashPattern.evened (dashStretches authored times)
  have round : 0 < DashPattern.period lengths := by
    rw [DashPattern.period_sum]
    exact DashPattern.evened_positive positive
  have pattern : (times.foldl Stroke.update (.ofDocument authored)).dashPattern =
      some ⟨lengths, Scalar.wrap (dashOffset authored times) (DashPattern.period lengths)⟩ := by
    rw [Stroke.dashPattern, updated_entries, DashPattern.ofEntries, entry_stretches, entry_offset,
      Exact.numeral_zero]
    change (if (dashStretches authored times).isEmpty then none else
      some (DashPattern.mk lengths _)) = _
    rw [List.isEmpty_eq_false_iff.mpr filled, if_neg Bool.false_ne_true]
    exact congrArg (fun offset => some (DashPattern.mk lengths offset)) (if_pos round)
  obtain ⟨atLeast, less, drawn⟩ := DashPattern.drawn_wrapped positive (dashOffset authored times)
  exact ⟨_, pattern, DashPattern.evened_even _, atLeast, less, fun distance =>
    ⟨DashPattern.one_stretch filled nonneg positive _, drawn distance⟩⟩

end Authored

/-- Three lengths of 3, 2 and 1 from 7 in front of the beginning, where the second stretch ends and the
third one begins. It is drawn in every other round, this one among them. -/
theorem three_lengths_dashed :
    let entry (name : String) (length : ℝ) : Document.Dash ℝ :=
      ⟨some name, { content := .fixed length }⟩
    let authored : Document.Stroke ℝ :=
      { dashes := [entry "d" 3, entry "g" 2, entry "o" 5, entry "v" 1, entry "o" (-7)] }
    dashStretches authored [4] = [3, 2, 1] ∧ dashOffset authored [4] = -7 ∧
      ∃ pattern, (Stroke.update (.ofDocument authored) 4).dashPattern = some pattern ∧
        Even pattern.lengths.length ∧ DashPattern.Drawn pattern.lengths pattern.offset := by
  intro entry authored
  have stretches : dashStretches authored [4] = [3, 2, 1] := rfl
  have offset : dashOffset authored [4] = -7 := rfl
  obtain ⟨pattern, isPattern, even, -, -, drawn⟩ := dashed_as_authored authored [4]
    (by simp [stretches]) (by norm_num [stretches])
  refine ⟨stretches, offset, pattern, isPattern, even, ?_⟩
  have third : DashPattern.Drawn [3, 2, 1] (-7) := by
    have filled : ([3, 2, 1] : List ℝ) ≠ [] := List.cons_ne_nil _ _
    have begins := @DashPattern.edge_at _ filled (-2) 2 (by decide)
    have ends := @DashPattern.edge_at _ filled (-2) 3 (by decide)
    refine ⟨-4, by decide, ?_, ?_⟩
    · exact begins.trans_le (by norm_num)
    · exact lt_of_lt_of_eq (by norm_num) ends.symm
  simpa [stretches, offset, third] using (drawn 0).2

end VectorMotion.Scene
