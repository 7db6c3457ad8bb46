import Mathlib.Data.List.GetD
import VectorMotion.Proofs.Trim.Parts

/-!
# What a window covers

Outlines are laid end to end, and a window of fractions of their whole length is shifted along them
and around. Every length of the whole is on one segment of one outline. If it is in the window, it
is in one of the parts that are kept, and if not, in none of them. So the parts that are kept are
together as long as the window.

Intervals are taken without their upper ends throughout. An upper end is where the next part or the
next outline begins.
-/

namespace VectorMotion.Trim

section Counting

/-- An interval that is taken apart. -/
theorem count_split {covered reached whole : ℝ} (first : covered ≤ reached)
    (second : reached ≤ whole) (x : ℝ) (p : Prop) [Decidable p] :
    (if (covered ≤ x ∧ x < reached) ∧ p then 1 else 0) +
      (if (reached ≤ x ∧ x < whole) ∧ p then 1 else 0) =
        if (covered ≤ x ∧ x < whole) ∧ p then 1 else 0 := by
  rcases lt_or_ge x reached with before | behind
  · simp [before, before.not_ge, before.trans_le second]
  · simp [behind, behind.not_gt, first.trans behind]

/-- Every length between two others is in exactly one part, if it is on the outline. -/
theorem parts_count (low high covered x : ℝ) {segments : List (Measured ℝ)}
    (sound : ∀ measured ∈ segments, measured.Sound) :
    (parts low high covered segments).countP (fun part => part.low ≤ x ∧ x < part.high) =
      if (covered ≤ x ∧ x < covered + totalLength segments) ∧ low ≤ x ∧ x < high then 1 else 0 := by
  induction segments generalizing covered with
  | nil =>
    rw [if_neg]
    · rfl
    · rintro ⟨⟨begins, ends⟩, -⟩
      rw [total_length, List.map_nil, List.sum_nil, add_zero] at ends
      exact begins.not_gt ends
  | cons measured rest inductionHypothesis =>
    obtain ⟨first, others⟩ := List.forall_mem_cons.mp sound
    have remaining : 0 ≤ totalLength rest := by
      rw [total_length]
      exact List.sum_nonneg (by simpa using fun measured member => (others measured member).pos.le)
    have here : (if max covered low < min (covered + measured.length) high then
        [(⟨measured, covered, max covered low, min (covered + measured.length) high⟩ : Part)]
        else []).countP (fun part => part.low ≤ x ∧ x < part.high) =
        if (covered ≤ x ∧ x < covered + measured.length) ∧ low ≤ x ∧ x < high then 1 else 0 := by
      have shared : (max covered low ≤ x ∧ x < min (covered + measured.length) high) ↔
          (covered ≤ x ∧ x < covered + measured.length) ∧ low ≤ x ∧ x < high := by
        rw [max_le_iff, lt_min_iff]
        tauto
      split
      case isTrue => simp only [List.countP_singleton, decide_eq_true_eq, shared]
      case isFalse apart =>
        refine (if_neg fun inside => apart ?_).symm
        exact (shared.mpr inside).1.trans_lt (shared.mpr inside).2
    rw [parts, List.countP_append, here, inductionHypothesis _ others, total_cons, ← add_assoc]
    exact count_split (by linarith [first.pos]) (by linarith) x _

end Counting

section Windows

variable (start finish offset : ℝ)

/-- A window that is shifted around is met by a fraction at once, or one turn later. -/
theorem window_turns (narrow : finish - start < 1) {x : ℝ} (nonneg : 0 ≤ x) (less : x < 1) :
    (∃ n : ℤ, start + offset ≤ x + n ∧ x + n < finish + offset) ↔
      (Int.fract (start + offset) ≤ x ∧ x < Int.fract (start + offset) + (finish - start)) ∨
        x < Int.fract (start + offset) + (finish - start) - 1 := by
  have whole : start + offset = ⌊start + offset⌋ + Int.fract (start + offset) :=
    (Int.floor_add_fract _).symm
  have begins := Int.fract_nonneg (start + offset)
  have ends := Int.fract_lt_one (start + offset)
  constructor
  · rintro ⟨n, above, below⟩
    have least : (⌊start + offset⌋ : ℝ) - 1 < n := by linarith
    have most : (n : ℝ) < ⌊start + offset⌋ + 2 := by linarith
    norm_cast at least most
    obtain rfl | rfl : n = ⌊start + offset⌋ ∨ n = ⌊start + offset⌋ + 1 := by omega
    · exact .inl ⟨by linarith, by linarith⟩
    · push_cast at below
      exact .inr (by linarith)
  · rintro (⟨above, below⟩ | below)
    · exact ⟨⌊start + offset⌋, by linarith, by linarith⟩
    · exact ⟨⌊start + offset⌋ + 1, by push_cast; linarith, by push_cast; linarith⟩

/-- The spans of a window lie within the whole length and are together as long as the window. -/
theorem spans_within (ordered : start ≤ finish) (narrow : finish - start < 1) {total : ℝ}
    (long : 0 < total) :
    (∀ span ∈ spans start finish offset total, 0 ≤ span.1 ∧ span.1 ≤ span.2 ∧ span.2 ≤ total) ∧
      ((spans start finish offset total).map fun span => span.2 - span.1).sum =
        (finish - start) * total := by
  have begins := Int.fract_nonneg (start + offset)
  have ends := Int.fract_lt_one (start + offset)
  rw [spans_exact]
  split
  case isTrue unbroken =>
    simp only [List.forall_mem_singleton, List.map_singleton, List.sum_singleton]
    exact ⟨⟨by positivity, by nlinarith, by nlinarith⟩, by ring⟩
  case isFalse broken =>
    simp only [List.forall_mem_cons, List.map_cons, List.map_nil, List.sum_cons, List.sum_nil]
    exact ⟨⟨⟨by positivity, by nlinarith, le_rfl⟩, ⟨le_rfl, by nlinarith, by nlinarith⟩, by simp⟩,
      by ring⟩

/-- A length of the whole is in one of the spans if it is in the window, and else in none. -/
theorem spans_count (narrow : finish - start < 1) {total x : ℝ}
    (long : 0 < total) (nonneg : 0 ≤ x) (less : x < total)
    [Decidable (∃ n : ℤ, start + offset ≤ x / total + n ∧ x / total + n < finish + offset)] :
    (spans start finish offset total).countP (fun span => span.1 ≤ x ∧ x < span.2) =
      if ∃ n : ℤ, start + offset ≤ x / total + n ∧ x / total + n < finish + offset then 1
      else 0 := by
  have turns := window_turns start finish offset narrow (div_nonneg nonneg long.le)
    ((div_lt_one long).mpr less)
  rw [le_div_iff₀ long, div_lt_iff₀ long, div_lt_iff₀ long] at turns
  rw [spans_exact]
  split
  case isTrue unbroken =>
    have once : ¬ x < (Int.fract (start + offset) + (finish - start) - 1) * total := by
      nlinarith
    simp only [turns, once, or_false, List.countP_singleton, decide_eq_true_eq]
  case isFalse broken =>
    have further : x < (Int.fract (start + offset) + (finish - start)) * total := by nlinarith
    have apart (behind : Int.fract (start + offset) * total ≤ x) :
        ¬ x < (Int.fract (start + offset) + (finish - start) - 1) * total := by nlinarith
    simp only [turns, further, and_true, List.countP_cons, List.countP_nil, less, nonneg, true_and,
      decide_eq_true_eq]
    by_cases behind : Int.fract (start + offset) * total ≤ x
    · simp [behind, apart behind]
    · simp [behind]

end Windows

section Outlines

variable (outlines : List (Path ℝ))

/-- The length of some outlines and one more is theirs and that of the one more. -/
theorem combined_succ {index : ℕ} (inside : index < outlines.length) :
    combined (outlines.take (index + 1)) =
      combined (outlines.take index) + totalLength (measure (outlines.getD index [])) := by
  rw [combined, combined, List.take_add_one, List.getElem?_eq_getElem inside, List.map_append,
    List.sum_append, List.getD_eq_getElem _ _ inside]
  simp

/-- The first outlines are no longer than all of them. -/
theorem combined_le (index : ℕ) : combined (outlines.take index) ≤ combined outlines := by
  have behind : 0 ≤ combined (outlines.drop index) :=
    List.sum_nonneg (List.forall_mem_map.mpr fun outline _ => total_nonneg outline)
  have sum : combined (outlines.take index) + combined (outlines.drop index) =
      combined outlines := by
    rw [combined, combined, ← List.sum_append, ← List.map_append, List.take_append_drop, combined]
  linarith

/-- No outlines have less than no length. -/
theorem combined_nonneg : 0 ≤ combined outlines := combined_le outlines 0

/-- The parts that spans keep of one of several outlines. -/
noncomputable def kept (window : List (ℝ × ℝ)) (index : ℕ) : List Part :=
  window.flatMap fun (low, high) =>
    parts low high (combined (outlines.take index)) (measure (outlines.getD index []))

/-- Cutting outlines draws the parts that are kept of each of them. -/
theorem cut_all_kept (window : List (ℝ × ℝ)) :
    cutAll window 0 (outlines.map measure) = (List.range outlines.length).map fun index =>
      drawn none ((kept outlines window index).map Part.numbered) := by
  rw [cut_all_drawn, List.length_map]
  refine List.map_congr_left fun index _ => congrArg (drawn none) ?_
  have before : 0 + (((outlines.map measure).take index).map totalLength).sum =
      combined (outlines.take index) := by
    rw [zero_add, combined, ← List.map_take, List.map_map]
    rfl
  have own : (outlines.map measure).getD index [] = measure (outlines.getD index []) :=
    List.getD_map outlines [] measure
  rw [kept, List.map_flatMap, before, own]
  refine congrArg (window.flatMap ·) (funext fun span => ?_)
  exact pieces_parts _ _ _ (measure_sound _)

/-- A length of an outline is in as many of its parts as there are spans that it is in. -/
theorem kept_count (window : List (ℝ × ℝ)) {index : ℕ} (inside : index < outlines.length) (x : ℝ) :
    (kept outlines window index).countP (fun part => part.low ≤ x ∧ x < part.high) =
      if combined (outlines.take index) ≤ x ∧ x < combined (outlines.take (index + 1)) then
        window.countP fun span => span.1 ≤ x ∧ x < span.2
      else 0 := by
  induction window with
  | nil => simp [kept]
  | cons span rest inductionHypothesis =>
    have here := parts_count span.1 span.2 (combined (outlines.take index)) x
      (measure_sound (outlines.getD index []))
    rw [← combined_succ outlines inside] at here
    rw [kept, List.flatMap_cons, List.countP_append, here, ← kept, inductionHypothesis,
      List.countP_cons]
    by_cases own : combined (outlines.take index) ≤ x ∧ x < combined (outlines.take (index + 1))
    · simp [own, add_comm]
    · rw [if_neg own, if_neg own, if_neg fun both => own both.1]

/-- What is kept of all outlines is as long as the spans are. -/
theorem kept_length {window : List (ℝ × ℝ)}
    (within : ∀ span ∈ window, 0 ≤ span.1 ∧ span.1 ≤ span.2 ∧ span.2 ≤ combined outlines) :
    ∑ index ∈ Finset.range outlines.length,
      ((kept outlines window index).map fun part => part.high - part.low).sum =
        (window.map fun span => span.2 - span.1).sum := by
  induction window with
  | nil => simp [kept]
  | cons span rest inductionHypothesis =>
    obtain ⟨⟨nonneg, ordered, inside⟩, others⟩ := List.forall_mem_cons.mp within
    have each : ∀ index ∈ Finset.range outlines.length,
        ((parts span.1 span.2 (combined (outlines.take index))
          (measure (outlines.getD index []))).map fun part => part.high - part.low).sum =
          nearest span.1 span.2 (combined (outlines.take (index + 1))) -
            nearest span.1 span.2 (combined (outlines.take index)) := by
      intro index member
      rw [parts_length ordered _ (measure_sound _),
        combined_succ outlines (Finset.mem_range.mp member)]
    have whole : ∑ index ∈ Finset.range outlines.length,
        ((parts span.1 span.2 (combined (outlines.take index))
          (measure (outlines.getD index []))).map fun part => part.high - part.low).sum =
          span.2 - span.1 := by
      have telescoped := Finset.sum_range_sub
        (fun index => nearest span.1 span.2 (combined (outlines.take index))) outlines.length
      rw [List.take_length] at telescoped
      rw [Finset.sum_congr rfl each]
      refine telescoped.trans ?_
      exact congrArg₂ (· - ·) (nearest_above ordered inside) (nearest_below ordered nonneg)
    simp only [kept, List.flatMap_cons, List.map_append, List.sum_append, Finset.sum_add_distrib,
      whole]
    exact congrArg (_ + ·) (inductionHypothesis others)

end Outlines

open Classical in
/-- What a window keeps of outlines that are laid end to end, if it is neither empty nor full and
the outlines have some length: parts of the segments of each outline, which go through the points
of their segments and are as long as they say. A length of the whole is in one part, namely of the
outline that it is on, if its fraction is in the window up to whole turns, and in no part if not;
together the parts are as long as the window. They are drawn from their starts, but for those that
continue where the part before has ended. -/
theorem window_covered (outlines : List (Path ℝ)) (start finish offset : ℝ)
    (some : negligible ≤ upper start finish - lower start finish)
    (notAll : upper start finish - lower start finish < 1)
    (long : negligible < combined outlines) :
    ∃ kept : ℕ → List Part,
      paths outlines start finish offset =
        (List.range outlines.length).map (fun index =>
          drawn none ((kept index).map Part.numbered)) ∧
      (∀ index < outlines.length,
        (∀ part ∈ kept index,
          part.Lies (combined (outlines.take index)) (measure (outlines.getD index [])) ∧
          Measure.length part.piece = part.high - part.low ∧
          ∀ y ∈ Set.Icc 0 (part.high - part.low), Exact.pointAfter part.piece y =
            Exact.pointAfter part.measured.segment (part.low - part.position + y)) ∧
        ∀ x, (kept index).countP (fun part => part.low ≤ x ∧ x < part.high) =
          if (combined (outlines.take index) ≤ x ∧ x < combined (outlines.take (index + 1))) ∧
            ∃ turns : ℤ, lower start finish + offset ≤ x / combined outlines + turns ∧
              x / combined outlines + turns < upper start finish + offset then 1 else 0) ∧
      ∑ index ∈ Finset.range outlines.length,
          ((kept index).map fun part => Measure.length part.piece).sum =
        (upper start finish - lower start finish) * combined outlines := by
  have ordered : lower start finish ≤ upper start finish := min_le_max
  have positive := negligible_pos.trans long
  let window := spans (lower start finish) (upper start finish) offset (combined outlines)
  obtain ⟨within, together⟩ := spans_within _ _ offset ordered notAll positive
  have lies (index : ℕ) : ∀ part ∈ kept outlines window index,
      part.Lies (combined (outlines.take index)) (measure (outlines.getD index [])) := by
    intro part member
    obtain ⟨span, -, inside⟩ := List.mem_flatMap.mp member
    exact parts_lie _ _ _ (measure_sound _) part inside
  refine ⟨kept outlines window, ?_, fun index inside => ⟨fun part member => ?_, fun x => ?_⟩, ?_⟩
  · have notFull : ¬ (lower start finish ≤ 0 ∧ 1 ≤ upper start finish) := by
      rintro ⟨begins, ends⟩
      linarith
    rw [paths_exact, if_neg (not_lt.mpr some), if_neg notFull, if_neg (not_le.mpr long)]
    exact cut_all_kept outlines window
  · have here := lies index part member
    exact ⟨here, here.length_piece, fun _ => here.point_piece⟩
  · rw [kept_count outlines window inside]
    split
    case isTrue own =>
      have nonneg : 0 ≤ x := (combined_nonneg (outlines.take index)).trans own.1
      have less : x < combined outlines := own.2.trans_le (combined_le outlines (index + 1))
      rw [spans_count _ _ offset notAll positive nonneg less]
      simp [own]
    case isFalse elsewhere => rw [if_neg fun both => elsewhere both.1]
  · rw [← together, ← kept_length outlines within]
    refine Finset.sum_congr rfl fun index _ => congrArg List.sum ?_
    exact List.map_congr_left fun part member => (lies index part member).length_piece

/-- Two lines at slightly different heights, and between them one that is too short to count. -/
noncomputable def ledge : Path ℝ :=
  [.move ⟨0, 45 / 10 ^ 7⟩, .line ⟨10, 45 / 10 ^ 7⟩, .line ⟨10, 54 / 10 ^ 7⟩,
    .line ⟨20, 54 / 10 ^ 7⟩]

/-- The ledge has two edges of ten that count. -/
theorem measure_ledge : measure ledge =
    [⟨0, .line ⟨0, 45 / 10 ^ 7⟩ ⟨10, 45 / 10 ^ 7⟩, 10⟩,
      ⟨0, .line ⟨10, 54 / 10 ^ 7⟩ ⟨20, 54 / 10 ^ 7⟩, 10⟩] := by
  have first : Measure.length (.line ⟨0, 45 / 10 ^ 7⟩ ⟨10, 45 / 10 ^ 7⟩ : Segment ℝ) = 10 := by
    rw [Exact.level_width _ (by norm_num)]
    norm_num
  have step : Measure.length (.line ⟨10, 45 / 10 ^ 7⟩ ⟨10, 54 / 10 ^ 7⟩ : Segment ℝ) =
      9 / 10 ^ 7 := by
    rw [Exact.measured_length, Exact.line_length _ _ zero_le_one, one_mul, sub_self]
    rw [Real.sqrt_eq_iff_mul_self_eq (by positivity) (by positivity)]
    norm_num
  have second : Measure.length (.line ⟨10, 54 / 10 ^ 7⟩ ⟨20, 54 / 10 ^ 7⟩ : Segment ℝ) = 10 := by
    rw [Exact.level_width _ (by norm_num)]
    norm_num
  simp only [measure, ledge, Path.trace, Path.traceFrom, List.map_cons, List.map_nil, first, step,
    second, negligible_exact]
  norm_num [List.filter]

/-- The window on the ledge has the ends that it is authored with. -/
theorem ledge_window : lower 0 (9 / 10) = 0 ∧ upper 0 (9 / 10) = 9 / 10 := by
  constructor <;> norm_num [lower, upper, fraction]

/-- The ledge has a length of twenty. -/
theorem combined_ledge : combined [ledge] = 20 := by
  rw [combined, List.map_singleton, List.sum_singleton, measure_ledge, total_length]
  norm_num

/-- The second line is drawn from the end of the first, because it begins next to it. -/
theorem ledge_cut : path ledge 0 (9 / 10) 0 =
    [.move ⟨0, 45 / 10 ^ 7⟩, .line ⟨10, 45 / 10 ^ 7⟩, .line ⟨18, 54 / 10 ^ 7⟩] := by
  obtain ⟨first, last⟩ := ledge_window
  have whole : Exact.part (.line ⟨0, 45 / 10 ^ 7⟩ ⟨10, 45 / 10 ^ 7⟩) 0 10 =
      .line ⟨0, 45 / 10 ^ 7⟩ ⟨10, 45 / 10 ^ 7⟩ := by
    rw [Exact.level_part _ ⟨le_rfl, by norm_num, ?_⟩ (by norm_num)]
    · norm_num
    · rw [Exact.level_width _ (by norm_num)]
      norm_num
  have shortened : Exact.part (.line ⟨10, 54 / 10 ^ 7⟩ ⟨20, 54 / 10 ^ 7⟩) 0 8 =
      .line ⟨10, 54 / 10 ^ 7⟩ ⟨18, 54 / 10 ^ 7⟩ := by
    rw [Exact.level_part _ ⟨le_rfl, by norm_num, ?_⟩ (by norm_num)]
    · norm_num
    · rw [Exact.level_width _ (by norm_num)]
      norm_num
  have near : ((⟨10, 45 / 10 ^ 7⟩ - ⟨10, 54 / 10 ^ 7⟩ : Vec2 ℝ)).length < negligible := by
    show √((10 - 10 : ℝ) ^ 2 + (45 / 10 ^ 7 - 54 / 10 ^ 7) ^ 2) < negligible
    rw [negligible_exact, Real.sqrt_lt' (by norm_num)]
    norm_num
  have kept : parts 0 18 0 (measure ledge) =
      [⟨⟨0, .line ⟨0, 45 / 10 ^ 7⟩ ⟨10, 45 / 10 ^ 7⟩, 10⟩, 0, 0, 10⟩,
        ⟨⟨0, .line ⟨10, 54 / 10 ^ 7⟩ ⟨20, 54 / 10 ^ 7⟩, 10⟩, 10, 10, 18⟩] := by
    rw [measure_ledge]
    norm_num [parts]
  have window : spans 0 (9 / 10) 0 20 = [((0 : ℝ), (18 : ℝ))] := by
    rw [spans_exact]
    norm_num
  rw [path, paths_exact, first, last, combined_ledge, negligible_exact, if_neg (by norm_num),
    if_neg (by norm_num), if_neg (by norm_num), window, List.map_singleton, cut_all_cons,
    List.flatMap_singleton]
  show drawn none (pieces 0 18 0 (measure ledge)) = _
  rw [pieces_parts _ _ _ (measure_sound _), kept]
  simp only [List.map_cons, List.map_nil, Part.numbered, Part.piece, sub_zero, sub_self]
  rw [whole, show (18 - 10 : ℝ) = 8 by norm_num, shortened]
  simp [drawn, continues, Segment.start, Segment.finish, Segment.element, near]

/-- A window over the two lines: parts of them are kept that are eighteen units long together. -/
theorem window_covered_ledge :
    ∃ kept : ℕ → List Part,
      paths [ledge] 0 (9 / 10) 0 =
        (List.range 1).map (fun index => drawn none ((kept index).map Part.numbered)) ∧
      ∑ index ∈ Finset.range 1, ((kept index).map fun part => Measure.length part.piece).sum =
        18 := by
  obtain ⟨first, last⟩ := ledge_window
  obtain ⟨kept, cut, -, together⟩ := window_covered [ledge] 0 (9 / 10) 0
    (by rw [first, last, negligible_exact]; norm_num) (by rw [first, last]; norm_num)
    (by rw [combined_ledge, negligible_exact]; norm_num)
  refine ⟨kept, cut, together.trans ?_⟩
  rw [first, last, combined_ledge]
  norm_num

/-- Between the two lines a slanted one is drawn, with a point that is not on the outline. -/
theorem ledge_slanted :
    negligible ≤ upper 0 (9 / 10) - lower 0 (9 / 10) ∧ upper 0 (9 / 10) - lower 0 (9 / 10) < 1 ∧
      negligible < combined [ledge] ∧
      ∃ traced ∈ (path ledge 0 (9 / 10) 0).trace, ∃ t ∈ Set.Icc (0 : ℝ) 1,
        ∀ own ∈ ledge.trace, ∀ u ∈ Set.Icc (0 : ℝ) 1, own.2.eval u ≠ traced.2.eval t := by
  obtain ⟨first, last⟩ := ledge_window
  rw [first, last, combined_ledge, ledge_cut, negligible_exact]
  refine ⟨by norm_num, by norm_num, by norm_num,
    (0, .line ⟨10, 45 / 10 ^ 7⟩ ⟨18, 54 / 10 ^ 7⟩), by simp [Path.trace, Path.traceFrom], 1 / 2,
    by constructor <;> norm_num, ?_⟩
  simp only [ledge, Path.trace, Path.traceFrom, List.forall_mem_cons, Segment.eval,
    Exact.vector_sum, Exact.vector_difference, Vec2.scale, ne_eq, Vec2.mk.injEq, not_and]
  exact ⟨fun u _ _ => by norm_num, fun u _ here => by norm_num at here,
    fun u _ _ => by norm_num, by simp⟩

end VectorMotion.Trim
