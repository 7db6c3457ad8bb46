import VectorMotion.Proofs.Trim.Remeasuring
import VectorMotion.Trim.Window

/-!
# Trimming twice

Groups replace two trims, one after the other, by a single one: the window of the inner trim is
taken for a part of the window of the outer one. Here this is compared with trimming twice. What
counts is that no piece of the outline is drawn from another place than it was: a segment that is too
short to count leaves a gap, which is closed when the rest is drawn, and the second trim measures
it.
-/

namespace VectorMotion.Trim

section Windows

/-- A result is what an outline has between two lengths: its parts, or the outline itself. -/
def Keeps (outline result : Path ℝ) (low high : ℝ) : Prop :=
  result = drawn none ((parts low high 0 (measure outline)).map Part.numbered) ∨
    result = outline ∧ low = 0 ∧ high = totalLength (measure outline)

/-- The cut of one outline by a window that is in order and not shifted. -/
theorem path_window (outline : Path ℝ) {start finish : ℝ} (nonneg : 0 ≤ start)
    (ordered : start < finish) (within : finish ≤ 1) :
    path outline start finish 0 =
      if finish - start < negligible then []
      else if start ≤ 0 ∧ 1 ≤ finish then outline
      else if totalLength (measure outline) ≤ negligible then []
      else drawn none ((parts (start * totalLength (measure outline))
        (finish * totalLength (measure outline)) 0 (measure outline)).map Part.numbered) := by
  have first : fraction start = start := by
    rw [fraction, min_eq_left (ordered.le.trans within), max_eq_right nonneg]
  have last : fraction finish = finish := by
    rw [fraction, min_eq_left within, max_eq_right (nonneg.trans ordered.le)]
  have low : lower start finish = start := by rw [lower, first, last, min_eq_left ordered.le]
  have high : upper start finish = finish := by rw [upper, first, last, max_eq_right ordered.le]
  have alone : combined [outline] = totalLength (measure outline) := by simp [combined]
  have window : spans start finish 0 (totalLength (measure outline)) =
      [(start * totalLength (measure outline), finish * totalLength (measure outline))] := by
    have own : Int.fract (start + 0) = start := by
      rw [add_zero]
      exact Int.fract_eq_self.mpr ⟨nonneg, ordered.trans_le within⟩
    rw [spans_exact, own, add_sub_cancel, if_pos within]
  rw [path, paths_exact, low, high, alone, window]
  split_ifs
  · rfl
  · rfl
  · rfl
  · rw [List.map_singleton, cut_all_cons, List.flatMap_singleton,
      ← pieces_parts _ _ _ (measure_sound outline)]
    rfl

/-- Nothing is left of nothing. -/
theorem path_nothing {start finish : ℝ} (nonneg : 0 ≤ start) (ordered : start < finish)
    (within : finish ≤ 1) : path [] start finish 0 = ([] : Path ℝ) := by
  have none : totalLength (measure ([] : Path ℝ)) ≤ negligible := by
    rw [total_length]
    exact negligible_pos.le
  rw [path_window _ nonneg ordered within, if_pos none]
  split_ifs <;> rfl

/-- What one window keeps. -/
theorem cut_once (outline : Path ℝ) {start finish : ℝ} (nonneg : 0 ≤ start)
    (ordered : start < finish) (within : finish ≤ 1) :
    Keeps outline (path outline start finish 0) (start * totalLength (measure outline))
        (finish * totalLength (measure outline)) ∨
      path outline start finish 0 = [] ∧
        (finish - start < negligible ∨ totalLength (measure outline) ≤ negligible) := by
  rw [path_window _ nonneg ordered within]
  split_ifs with narrow full short
  · exact .inr ⟨rfl, .inl narrow⟩
  · have zero : start = 0 := le_antisymm full.1 nonneg
    have one : finish = 1 := le_antisymm within full.2
    exact .inl (.inr ⟨rfl, by rw [zero, zero_mul], by rw [one, one_mul]⟩)
  · exact .inr ⟨rfl, .inr short⟩
  · exact .inl (.inl rfl)

/-- A share of a stretch is not moved by more than the ends of the stretch are. -/
theorem share_near {low high low' high' share : ℝ} (lower : low ≤ low')
    (near : low' ≤ low + negligible) (close : high - negligible ≤ high') (higher : high' ≤ high)
    (nonneg : 0 ≤ share) (most : share ≤ 1) :
    |share * (high' - low') + low' - (low + share * (high - low))| ≤ negligible := by
  have parts : share * (high' - low') + low' - (low + share * (high - low)) =
      (1 - share) * (low' - low) - share * (high - high') := by ring
  have front : (1 - share) * (low' - low) ≤ (1 - share) * negligible :=
    mul_le_mul_of_nonneg_left (by linarith) (by linarith)
  have back : share * (high - high') ≤ share * negligible :=
    mul_le_mul_of_nonneg_left (by linarith) nonneg
  have frontNonneg : 0 ≤ (1 - share) * (low' - low) :=
    mul_nonneg (by linarith) (by linarith)
  have backNonneg : 0 ≤ share * (high - high') := mul_nonneg nonneg (by linarith)
  have shareNonneg : 0 ≤ share * negligible := mul_nonneg nonneg negligible_pos.le
  have restNonneg : 0 ≤ (1 - share) * negligible := mul_nonneg (by linarith) negligible_pos.le
  rw [parts, abs_le]
  constructor <;> linarith

/-- A result is what an outline has between two lengths next to given ones, or between these if the
result is `exact`. -/
def NearlyKeeps (outline result : Path ℝ) (exact : Prop) (first last : ℝ) : Prop :=
  ∃ low high, |low - first| ≤ negligible ∧ |high - last| ≤ negligible ∧
    (exact → low = first ∧ high = last) ∧ Keeps outline result low high

/-- What is kept exactly is kept nearly. -/
theorem Keeps.nearly {outline result : Path ℝ} {first last : ℝ}
    (keeps : Keeps outline result first last) (exact : Prop) :
    NearlyKeeps outline result exact first last :=
  ⟨first, last, by simpa using negligible_pos.le, by simpa using negligible_pos.le,
    fun _ => ⟨rfl, rfl⟩, keeps⟩

/-- What a window keeps of the parts of an outline without gaps that have been drawn. -/
theorem cut_parts (outline : Path ℝ) (gapless : (measure outline).IsChain Measured.Joins)
    {low high start finish : ℝ} (lowNonneg : 0 ≤ low) (stretch : low ≤ high)
    (inside : high ≤ totalLength (measure outline)) (nonneg : 0 ≤ start)
    (ordered : start < finish) (within : finish ≤ 1) :
    let kept := parts low high 0 (measure outline)
    let again := path (drawn none (kept.map Part.numbered)) start finish 0
    NearlyKeeps outline again (∀ part ∈ kept, part.counts = true) (low + start * (high - low))
        (low + finish * (high - low)) ∨
      again = [] ∧ (finish - start < negligible ∨ high - low ≤ 3 * negligible) := by
  intro kept again
  have positive := negligible_pos
  obtain ⟨low', high', lower, near, close, higher, order, same, anew, inner⟩ :=
    drawn_again (measure_sound outline) lowNonneg stretch inside gapless
  have cut := path_window (drawn none (kept.map Part.numbered)) nonneg ordered within
  rw [anew] at cut
  split_ifs at cut with narrow full short
  · exact .inr ⟨cut, .inl narrow⟩
  · have zero : start = 0 := le_antisymm full.1 nonneg
    have one : finish = 1 := le_antisymm within full.2
    refine .inl (Keeps.nearly (.inl ?_) _)
    rw [zero, one, zero_mul, one_mul, add_zero, add_sub_cancel]
    exact cut
  · refine .inr ⟨cut, .inr ?_⟩
    linarith
  · refine .inl ⟨start * (high' - low') + low', finish * (high' - low') + low', ?_, ?_,
      fun all => ?_, .inl (cut.trans ?_)⟩
    · exact share_near lower near close higher nonneg (ordered.le.trans within)
    · exact share_near lower near close higher (nonneg.trans ordered.le) within
    · obtain ⟨sameLow, sameHigh⟩ := same all
      rw [sameLow, sameHigh, add_comm low, add_comm low]
      exact ⟨rfl, rfl⟩
    · exact inner _ _ (mul_nonneg nonneg (sub_nonneg.mpr order))
        (mul_le_of_le_one_left (sub_nonneg.mpr order) within)

/-- What one window keeps of what another one has kept of an outline without gaps. -/
theorem cut_twice (outline : Path ℝ) (gapless : (measure outline).IsChain Measured.Joins)
    {a b c d : ℝ} (outerNonneg : 0 ≤ a) (outerOrdered : a < b) (outerWithin : b ≤ 1)
    (innerNonneg : 0 ≤ c) (innerOrdered : c < d) (innerWithin : d ≤ 1) {total first last : ℝ}
    (whole : total = totalLength (measure outline)) (begins : first = (a + c * (b - a)) * total)
    (ends : last = (a + d * (b - a)) * total) :
    NearlyKeeps outline (path (path outline a b 0) c d 0)
      (∀ part ∈ parts (a * total) (b * total) 0 (measure outline), part.counts = true) first last ∨
    path (path outline a b 0) c d 0 = [] ∧
      (b - a < negligible ∨ d - c < negligible ∨ last - first ≤ 3 * negligible) := by
  have positive := negligible_pos
  have nonneg : 0 ≤ total := whole ▸ total_nonneg outline
  have stretch : a * total ≤ b * total := mul_le_mul_of_nonneg_right outerOrdered.le nonneg
  have firstShare : first = a * total + c * (b * total - a * total) := by
    rw [begins]
    ring
  have lastShare : last = a * total + d * (b * total - a * total) := by
    rw [ends]
    ring
  have shorter : last - first ≤ b * total - a * total := by
    have share : last - first = (d - c) * (b * total - a * total) := by
      rw [firstShare, lastShare]
      ring
    rw [share]
    exact mul_le_of_le_one_left (sub_nonneg.mpr stretch) (by linarith)
  have cut := path_window outline outerNonneg outerOrdered outerWithin
  rw [← whole] at cut
  split_ifs at cut with narrow full short
  · rw [cut, path_nothing innerNonneg innerOrdered innerWithin]
    exact .inr ⟨rfl, .inl narrow⟩
  · have zero : a = 0 := le_antisymm full.1 outerNonneg
    have one : b = 1 := le_antisymm outerWithin full.2
    rw [zero, one, zero_mul, one_mul, sub_zero] at shorter
    rw [cut]
    rcases cut_once outline innerNonneg innerOrdered innerWithin with keeps | ⟨none, why⟩
    · refine .inl (Keeps.nearly ?_ _)
      rw [begins, ends, zero, one, whole]
      simpa using keeps
    · refine .inr ⟨none, .inr (why.imp_right fun short => ?_)⟩
      linarith
  · rw [cut, path_nothing innerNonneg innerOrdered innerWithin]
    have least : 0 ≤ a * total := mul_nonneg outerNonneg nonneg
    have most : b * total ≤ total := mul_le_of_le_one_left nonneg outerWithin
    refine .inr ⟨rfl, .inr (.inr ?_)⟩
    linarith
  · have inside : b * total ≤ totalLength (measure outline) :=
      whole ▸ mul_le_of_le_one_left nonneg outerWithin
    have kept := cut_parts outline gapless (mul_nonneg outerNonneg nonneg) stretch inside
      innerNonneg innerOrdered innerWithin
    rw [cut, firstShare, lastShare]
    rw [firstShare, lastShare] at shorter
    exact kept.imp_right (And.imp_right fun why =>
      .inr (why.imp_right fun short => shorter.trans short))

/-- A window in percent that is in order and not shifted. -/
structure Window.Still (window : Window ℝ) : Prop where
  nonneg : 0 ≤ window.start
  ordered : window.start < window.finish
  most : window.finish ≤ 100
  offset : window.offset = 0

/-- A fraction is a hundredth of a percentage. -/
theorem fraction_percent (percent : ℝ) : (Window.fraction percent : ℝ) = percent / 100 := by
  rw [Window.fraction, Exact.widening, Exact.numeral_hundred]

namespace Window.Still

variable {window outer inner : Window ℝ}

/-- A window that does not move cuts a path by its fractions. -/
theorem cut_path (still : window.Still) (outline : Path ℝ) :
    window.cut outline = path outline (window.start / 100) (window.finish / 100) 0 := by
  have turns : (widen window.turns : ℝ) = 0 := by
    rw [Exact.widening, Window.turns, still.offset, zero_div]
  rw [Window.cut, fraction_percent, fraction_percent, turns]

/-- A window as a part of another one, in fractions. -/
theorem within_fractions (inner outer : Window ℝ) :
    (inner.within outer).start / 100 = outer.start / 100 +
        inner.start / 100 * (outer.finish / 100 - outer.start / 100) ∧
      (inner.within outer).finish / 100 = outer.start / 100 +
        inner.finish / 100 * (outer.finish / 100 - outer.start / 100) := by
  simp only [Window.within]
  constructor <;> ring

/-- A part of a window is a window. -/
theorem within (inside : inner.Still) (around : outer.Still) : (inner.within outer).Still := by
  obtain ⟨innerNonneg, innerOrdered, innerMost, innerOffset⟩ := inside
  obtain ⟨outerNonneg, outerOrdered, outerMost, outerOffset⟩ := around
  have range : 0 < outer.finish - outer.start := sub_pos.mpr outerOrdered
  have share (percent : ℝ) : outer.start + percent / 100 * (outer.finish - outer.start) =
      outer.start + percent * (outer.finish - outer.start) / 100 := by ring
  have least := mul_nonneg innerNonneg range.le
  have further := mul_lt_mul_of_pos_right innerOrdered range
  have most := mul_le_mul_of_nonneg_right innerMost range.le
  constructor <;> simp only [Window.within, share]
  · linarith
  · linarith
  · linarith
  · rw [innerOffset, outerOffset, add_zero]

end Window.Still

/-- Two windows as one, and the two one after the other, for an outline of which the segments that
count meet where they are next to each other. Both ways keep one stretch of the outline. Its ends
are moved by no more than what does not count, and by nothing if all that the first window has kept
counts. Nothing is kept at all if a window is too narrow or the stretch too short to count. -/
theorem trimmed_twice (outline : Path ℝ) (gapless : (measure outline).IsChain Measured.Joins)
    (outer inner : Window ℝ) (around : outer.Still) (inside : inner.Still) :
    let total := totalLength (measure outline)
    let merged := inner.within outer
    let first := merged.start / 100 * total
    let last := merged.finish / 100 * total
    (Keeps outline (merged.cut outline) first last ∨ merged.cut outline = [] ∧
      ((merged.finish - merged.start) / 100 < negligible ∨ total ≤ negligible)) ∧
    ((∃ low high, |low - first| ≤ negligible ∧ |high - last| ≤ negligible ∧
        ((∀ part ∈ parts (outer.start / 100 * total) (outer.finish / 100 * total) 0
          (measure outline), negligible < part.high - part.low) → low = first ∧ high = last) ∧
        Keeps outline (inner.cut (outer.cut outline)) low high) ∨
      inner.cut (outer.cut outline) = [] ∧
        ((outer.finish - outer.start) / 100 < negligible ∨
          (inner.finish - inner.start) / 100 < negligible ∨ last - first ≤ 3 * negligible)) := by
  intro total merged first last
  have hundred : (0 : ℝ) < 100 := by norm_num
  have fractions {window : Window ℝ} (still : window.Still) : 0 ≤ window.start / 100 ∧
      window.start / 100 < window.finish / 100 ∧ window.finish / 100 ≤ 1 :=
    ⟨div_nonneg still.nonneg hundred.le, div_lt_div_of_pos_right still.ordered hundred,
      (div_le_one hundred).mpr still.most⟩
  have both := inside.within around
  obtain ⟨mergedNonneg, mergedOrdered, mergedMost⟩ := fractions both
  obtain ⟨outerNonneg, outerOrdered, outerMost⟩ := fractions around
  obtain ⟨innerNonneg, innerOrdered, innerMost⟩ := fractions inside
  obtain ⟨begins, ends⟩ := Window.Still.within_fractions inner outer
  constructor
  · rw [both.cut_path, sub_div]
    exact cut_once outline mergedNonneg mergedOrdered mergedMost
  · rw [around.cut_path, inside.cut_path, sub_div, sub_div]
    have twice := cut_twice outline gapless outerNonneg outerOrdered outerMost innerNonneg
      innerOrdered innerMost (rfl : total = _) (congrArg (· * total) begins)
      (congrArg (· * total) ends)
    simpa only [NearlyKeeps, Part.counts_iff] using twice

end Windows

section Level

/-- A path along the horizontal axis. -/
noncomputable def level (start : ℝ) (stops : List ℝ) : Path ℝ :=
  .move ⟨start, 0⟩ :: stops.map fun stop => .line ⟨stop, 0⟩

/-- A line along the horizontal axis. -/
noncomputable def dash (ends : ℝ × ℝ) : Segment ℝ := .line ⟨ends.1, 0⟩ ⟨ends.2, 0⟩

/-- Lines along the horizontal axis, measured. -/
noncomputable def dashes (intervals : List (ℝ × ℝ)) : List (Measured ℝ) :=
  intervals.map fun ends => ⟨0, dash ends, ends.2 - ends.1⟩

/-- A dash is as long as its ends are apart. -/
theorem dash_length {ends : ℝ × ℝ} (ordered : ends.1 ≤ ends.2) :
    Measure.length (dash ends) = ends.2 - ends.1 := by
  exact Exact.level_width 0 ordered

/-- Of a level path those dashes are measured that count. -/
theorem measure_level (start : ℝ) (stops : List ℝ) (ordered : (start :: stops).IsChain (· ≤ ·)) :
    measure (level start stops) =
      dashes (((start :: stops).zip stops).filter fun ends => negligible < ends.2 - ends.1) := by
  have traced (origin : Vec2 ℝ) : Path.traceFrom origin ⟨start, 0⟩ true 0
      (stops.map fun stop => .line ⟨stop, 0⟩) =
        ((start :: stops).zip stops).map fun ends => (0, dash ends) := by
    clear ordered
    induction stops generalizing start with
    | nil => rfl
    | cons stop rest inductionHypothesis =>
      exact congrArg (_ :: ·) (inductionHypothesis stop)
  have long : ∀ ends ∈ (start :: stops).zip stops,
      (⟨0, dash ends, Measure.length (dash ends)⟩ : Measured ℝ) =
        ⟨0, dash ends, ends.2 - ends.1⟩ := by
    clear traced
    induction stops generalizing start with
    | nil => simp
    | cons stop rest inductionHypothesis =>
      obtain ⟨first, others⟩ := List.isChain_cons_cons.mp ordered
      exact List.forall_mem_cons.mpr ⟨by rw [dash_length first], inductionHypothesis stop others⟩
  have trace : (level start stops).trace =
      ((start :: stops).zip stops).map fun ends => (0, dash ends) := traced ⟨start, 0⟩
  rw [measure, trace, List.map_map, Function.comp_def, List.map_congr_left long, dashes,
    List.filter_map]
  rfl

/-- Half of a line, and half of what is left: a quarter, either way. -/
theorem trimmed_twice_line :
    let half : Window ℝ := ⟨"Half", 0, 50, 0, .individual⟩
    (measure (level 0 [10])).IsChain Measured.Joins ∧ half.Still ∧
      Keeps (level 0 [10]) ((half.within half).cut (level 0 [10])) 0 (5 / 2) ∧
      Keeps (level 0 [10]) (half.cut (half.cut (level 0 [10]))) 0 (5 / 2) := by
  intro half
  have measured : measure (level 0 [10]) = dashes [(0, 10)] := by
    rw [measure_level _ _ (by norm_num), negligible_exact]
    norm_num [List.filter]
  have gapless : (measure (level 0 [10])).IsChain Measured.Joins := by
    rw [measured]
    exact .singleton _
  have still : half.Still := ⟨le_rfl, by norm_num [half], by norm_num [half], rfl⟩
  have total : totalLength (measure (level 0 [10])) = 10 := by
    rw [measured, total_length]
    norm_num [dashes]
  have start : (half.within half).start / 100 = 0 := by norm_num [half, Window.within]
  have finish : (half.within half).finish / 100 = 1 / 4 := by norm_num [half, Window.within]
  have counts : ∀ part ∈ parts (half.start / 100 * 10) (half.finish / 100 * 10) 0
      (measure (level 0 [10])), negligible < part.high - part.low := by
    rw [measured, negligible_exact]
    norm_num [half, dashes, parts]
  obtain ⟨once, twice⟩ := trimmed_twice (level 0 [10]) gapless half half still still
  rw [total, start, finish, zero_mul, negligible_exact] at once
  rw [total, start, finish, zero_mul] at twice
  have quarter : (1 / 4 * 10 : ℝ) = 5 / 2 := by norm_num
  refine ⟨gapless, still, ?_, ?_⟩
  · rcases once with keeps | ⟨-, narrow | short⟩
    · rwa [quarter] at keeps
    · norm_num [half, Window.within] at narrow
    · norm_num at short
  · rcases twice with ⟨low, high, -, -, same, keeps⟩ | ⟨-, narrow | narrow | short⟩
    · obtain ⟨rfl, rfl⟩ := same counts
      rwa [quarter] at keeps
    · norm_num [half, negligible_exact] at narrow
    · norm_num [half, negligible_exact] at narrow
    · norm_num [negligible_exact] at short

/-- What is left of lines along the axis up to a length. -/
noncomputable def cutDashes (high : ℝ) : ℝ → List (ℝ × ℝ) → List (ℝ × ℝ)
  | _, [] => []
  | covered, ends :: rest =>
    let reached := covered + (ends.2 - ends.1)
    (if covered < min reached high then [(ends.1, ends.1 + (min reached high - covered))]
      else []) ++ cutDashes high reached rest

/-- A dash within the window is kept whole. -/
theorem cut_whole {high covered : ℝ} {ends : ℝ × ℝ} {rest : List (ℝ × ℝ)}
    (ordered : ends.1 < ends.2) (inside : covered + (ends.2 - ends.1) ≤ high) :
    cutDashes high covered (ends :: rest) =
      ends :: cutDashes high (covered + (ends.2 - ends.1)) rest := by
  rw [cutDashes, min_eq_left inside, if_pos (by linarith), add_sub_cancel_left, add_sub_cancel]
  rfl

/-- A dash that reaches beyond the window is cut at its end. -/
theorem cut_last {high covered : ℝ} {ends : ℝ × ℝ} (begun : covered < high)
    (reached : high ≤ covered + (ends.2 - ends.1)) :
    cutDashes high covered [ends] = [(ends.1, ends.1 + (high - covered))] := by
  rw [cutDashes, min_eq_right reached, if_pos begun]
  rfl

/-- The parts of dashes are the dashes that are cut. -/
theorem parts_dashes (high covered : ℝ) (nonneg : 0 ≤ covered) {intervals : List (ℝ × ℝ)}
    (ordered : ∀ ends ∈ intervals, ends.1 < ends.2) :
    (parts 0 high covered (dashes intervals)).map Part.numbered =
      (cutDashes high covered intervals).map fun ends => (0, dash ends) := by
  induction intervals generalizing covered with
  | nil => rfl
  | cons ends rest inductionHypothesis =>
    obtain ⟨first, others⟩ := List.forall_mem_cons.mp ordered
    have tail := inductionHypothesis (covered + (ends.2 - ends.1)) (by linarith) others
    rw [dashes, List.map_cons, parts, cutDashes, List.map_append, List.map_append,
      max_eq_left nonneg]
    refine congrArg₂ (· ++ ·) ?_ tail
    by_cases some : covered < min (covered + (ends.2 - ends.1)) high
    · have inside : Exact.Covered (dash ends) 0
          (min (covered + (ends.2 - ends.1)) high - covered) := by
        refine ⟨le_rfl, sub_pos.mpr some, ?_⟩
        rw [dash_length first.le]
        linarith [min_le_left (covered + (ends.2 - ends.1)) high]
      have piece : Exact.part (dash ends) (covered - covered)
          (min (covered + (ends.2 - ends.1)) high - covered) =
          dash (ends.1, ends.1 + (min (covered + (ends.2 - ends.1)) high - covered)) := by
        rw [sub_self, dash, Exact.level_part 0 inside first, add_zero]
        rfl
      rw [if_pos some, if_pos some]
      exact congrArg (fun piece => [(0, piece)]) piece
    · rw [if_neg some, if_neg some]
      rfl

/-- Dashes that nearly meet are drawn as one level path. -/
theorem drawn_dashes (first : ℝ × ℝ) (rest : List (ℝ × ℝ))
    (near : (first :: rest).IsChain fun one next => |one.2 - next.1| < negligible) :
    drawn none ((first :: rest).map fun ends => (0, dash ends)) =
      level first.1 (first.2 :: rest.map Prod.snd) := by
  have behind : drawn (some (0, ⟨first.2, 0⟩)) (rest.map fun ends => (0, dash ends)) =
      (rest.map Prod.snd).map fun stop => .line ⟨stop, 0⟩ := by
    induction rest generalizing first with
    | nil => rfl
    | cons next rest inductionHypothesis =>
      obtain ⟨close, others⟩ := List.isChain_cons_cons.mp near
      have length : ((⟨first.2, 0⟩ : Vec2 ℝ) - ⟨next.1, 0⟩).length = |first.2 - next.1| := by
        show √((first.2 - next.1) ^ 2 + (0 - 0) ^ 2) = _
        rw [sub_zero, zero_pow two_ne_zero, add_zero, Real.sqrt_sq_eq_abs]
      have joined : continues (some (0, ⟨first.2, 0⟩)) 0 (dash next).start = true := by
        simpa [continues, dash, Segment.start, length] using close
      rw [List.map_cons, drawn, if_pos joined]
      exact congrArg (_ :: ·) (inductionHypothesis next others)
  exact congrArg (_ :: _ :: ·) behind

/-- The cut of lines along the axis up to a fraction of their length. -/
theorem cut_dashes {outline : Path ℝ} {intervals : List (ℝ × ℝ)}
    (measured : measure outline = dashes intervals)
    (ordered : ∀ ends ∈ intervals, ends.1 < ends.2) (total : ℝ)
    (whole : (intervals.map fun ends => ends.2 - ends.1).sum = total) (long : negligible < total)
    {share : ℝ} (wide : negligible ≤ share) (notAll : share < 1) :
    path outline 0 share 0 =
      drawn none ((cutDashes (share * total) 0 intervals).map fun ends => (0, dash ends)) := by
  have length : totalLength (measure outline) = total := by
    rw [measured, total_length, dashes, List.map_map, ← whole]
    rfl
  rw [path_window outline le_rfl (negligible_pos.trans_le wide) notAll.le, length, if_neg,
    if_neg fun full => notAll.not_ge full.2, if_neg long.not_ge, zero_mul, measured,
    parts_dashes _ 0 le_rfl ordered]
  rw [sub_zero]
  exact wide.not_gt

/-- A line with four gaps in it, each of them a segment that is too short to count. -/
noncomputable def gapped : Path ℝ :=
  level 0 [2 / 10 ^ 6, 29 / 10 ^ 7, 49 / 10 ^ 7, 58 / 10 ^ 7, 78 / 10 ^ 7, 87 / 10 ^ 7,
    107 / 10 ^ 7, 116 / 10 ^ 7, 1036 / 10 ^ 7]

/-- Of the path with gaps those dashes are measured that are longer than a millionth. -/
theorem measure_gapped : measure gapped =
    dashes [(0, 2 / 10 ^ 6), (29 / 10 ^ 7, 49 / 10 ^ 7), (58 / 10 ^ 7, 78 / 10 ^ 7),
      (87 / 10 ^ 7, 107 / 10 ^ 7), (116 / 10 ^ 7, 1036 / 10 ^ 7)] := by
  rw [gapped, measure_level _ _ (by norm_num), negligible_exact]
  norm_num [List.filter]

/-- Cutting the path with gaps at its end keeps all gaps in front of it. -/
theorem gapped_cut {share : ℝ} (wide : 128 / 1000 ≤ share) (notAll : share < 1) :
    path gapped 0 share 0 = level 0 [2 / 10 ^ 6, 49 / 10 ^ 7, 78 / 10 ^ 7, 107 / 10 ^ 7,
      share * (1 / 10 ^ 4) + 36 / 10 ^ 7] := by
  have last : 116 / 10 ^ 7 + (share * (1 / 10 ^ 4) - 8 / 10 ^ 6) =
      share * (1 / 10 ^ 4) + 36 / 10 ^ 7 := by ring
  rw [cut_dashes measure_gapped (by norm_num) (1 / 10 ^ 4) (by norm_num)
    (by rw [negligible_exact]; norm_num) (by rw [negligible_exact]; linarith) notAll,
    cut_whole (by norm_num) (by norm_num; linarith),
    cut_whole (by norm_num) (by norm_num; linarith),
    cut_whole (by norm_num) (by norm_num; linarith),
    cut_whole (by norm_num) (by norm_num; linarith),
    cut_last (by norm_num; linarith) (by norm_num; linarith),
    drawn_dashes _ _ (by norm_num [negligible_exact]), ← last]
  norm_num [level]

/-- What is left of the gapped line is a line without gaps. -/
theorem closed_cut :
    path (level 0 [2 / 10 ^ 6, 49 / 10 ^ 7, 78 / 10 ^ 7, 107 / 10 ^ 7, 836 / 10 ^ 7]) 0 (16 / 100)
        0 =
      level 0 [2 / 10 ^ 6, 49 / 10 ^ 7, 78 / 10 ^ 7, 107 / 10 ^ 7, 13376 / 10 ^ 9] := by
  have measured :
      measure (level 0 [2 / 10 ^ 6, 49 / 10 ^ 7, 78 / 10 ^ 7, 107 / 10 ^ 7, 836 / 10 ^ 7]) =
        dashes [(0, 2 / 10 ^ 6), (2 / 10 ^ 6, 49 / 10 ^ 7), (49 / 10 ^ 7, 78 / 10 ^ 7),
          (78 / 10 ^ 7, 107 / 10 ^ 7), (107 / 10 ^ 7, 836 / 10 ^ 7)] := by
    rw [measure_level _ _ (by norm_num), negligible_exact]
    norm_num [List.filter]
  rw [cut_dashes measured (by norm_num) (836 / 10 ^ 7) (by norm_num)
    (by rw [negligible_exact]; norm_num) (by rw [negligible_exact]; norm_num) (by norm_num),
    cut_whole (by norm_num) (by norm_num), cut_whole (by norm_num) (by norm_num),
    cut_whole (by norm_num) (by norm_num), cut_whole (by norm_num) (by norm_num),
    cut_last (by norm_num) (by norm_num), drawn_dashes _ _ (by norm_num [negligible_exact])]
  norm_num [level]

/-- Trimming the gapped line to four fifths and what is left to sixteen hundredths keeps less of it
than both at once: the second trim measures what has been drawn across the gaps. -/
theorem gapped_twice :
    let outer : Window ℝ := ⟨"Outer", 0, 80, 0, .individual⟩
    let inner : Window ℝ := ⟨"Inner", 0, 16, 0, .individual⟩
    outer.Still ∧ inner.Still ∧
      (inner.within outer).cut gapped =
        level 0 [2 / 10 ^ 6, 49 / 10 ^ 7, 78 / 10 ^ 7, 107 / 10 ^ 7, 164 / 10 ^ 7] ∧
      inner.cut (outer.cut gapped) =
        level 0 [2 / 10 ^ 6, 49 / 10 ^ 7, 78 / 10 ^ 7, 107 / 10 ^ 7, 13376 / 10 ^ 9] ∧
      3 * negligible < (164 / 10 ^ 7 - 13376 / 10 ^ 9 : ℝ) := by
  intro outer inner
  have around : outer.Still := ⟨le_rfl, by norm_num [outer], by norm_num [outer], rfl⟩
  have inside : inner.Still := ⟨le_rfl, by norm_num [inner], by norm_num [inner], rfl⟩
  obtain ⟨begins, ends⟩ := Window.Still.within_fractions inner outer
  have outerCut : outer.cut gapped =
      level 0 [2 / 10 ^ 6, 49 / 10 ^ 7, 78 / 10 ^ 7, 107 / 10 ^ 7, 836 / 10 ^ 7] := by
    rw [around.cut_path, zero_div, gapped_cut (by norm_num) (by norm_num)]
    norm_num
  refine ⟨around, inside, ?_, ?_, by rw [negligible_exact]; norm_num⟩
  · have start : outer.start / 100 + inner.start / 100 *
        (outer.finish / 100 - outer.start / 100) = 0 := by norm_num [outer, inner]
    have finish : outer.start / 100 + inner.finish / 100 *
        (outer.finish / 100 - outer.start / 100) = 128 / 1000 := by norm_num [outer, inner]
    rw [(inside.within around).cut_path, begins, ends, start, finish,
      gapped_cut le_rfl (by norm_num)]
    norm_num
  · rw [outerCut, inside.cut_path, zero_div]
    exact closed_cut

end Level

end VectorMotion.Trim
