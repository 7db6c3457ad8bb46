import VectorMotion.Proofs.Trim.Coverage
import VectorMotion.Proofs.Scalar.Lengths
import VectorMotion.Curve.ArcLength
import VectorMotion.Geometry.Reversal

/-!
# Trimmed outlines beside their originals

A trim gives one outline for every outline that it is given, in the same order. A full window leaves
them as they are. Any other window leaves outlines that can be drawn as they stand: each begins with
a move, is nowhere closed, and is made of parts of the segments of its own original. A part is drawn
from a move to where it begins, or it goes on where a part of the same subpath has ended right next to
that point. All of this holds whatever start, finish and offset are, numbers or not, and of rounded
scalars as well as of exact ones.

Which parameter a measure finds for a length is left open. If it is on the segment, so are the parts.
The exact measure finds such parameters, and so does the one in double precision for lines.
-/

namespace VectorMotion.Trim

section Parts

variable {P : Type} [Scalar P] [Measure P]

/-- Where a part of a segment may begin or end: at an end of the segment, or where a length within
its own has been covered. -/
inductive Boundary (segment : Segment P) : P → Prop
  | start : Boundary segment 0
  | finish : Boundary segment 1
  | along {length : P} (nonneg : 0 ≤ length) (within : length ≤ Measure.length segment) :
    Boundary segment (Measure.parameterAt segment length)

/-- A measure stays on a segment if the parameters that it finds for lengths of the segment are
between zero and one. -/
def StaysOn (segment : Segment P) : Prop :=
  ∀ length : P, 0 ≤ length → length ≤ Measure.length segment →
    0 ≤ Measure.parameterAt segment length ∧ Measure.parameterAt segment length ≤ 1

/-- The exact measure stays on every segment. -/
theorem stays_on_exact (segment : Segment ℝ) : StaysOn segment := by
  intro length _ _
  rw [Exact.numeral_zero, Exact.numeral_one]
  exact ⟨Real.sSup_nonneg fun _ covered => covered.1.1,
    Real.sSup_le (fun _ covered => covered.1.2) zero_le_one⟩

/-- In double precision a line that can be measured is stayed on, since it is divided by its length. -/
theorem stays_on_line {p q : Vec2 Float} (some : 0 < Measure.length (.line p q : Segment Float))
    (ends : Scalar.isFinite (Measure.length (.line p q : Segment Float)) = true) :
    StaysOn (.line p q : Segment Float) :=
  fun _ nonneg within => Rounded.share_within nonneg within some ends

/-- The parts of a segment: the segment as it is, or what is between two boundaries. They are in order
and between zero and one, as long as the measure stays on the segment. -/
inductive PartOf (segment : Segment P) : Segment P → Prop
  | whole : PartOf segment segment
  | between {first last : P} (begins : Boundary segment first) (ends : Boundary segment last)
    (forward : StaysOn segment → 0 ≤ first ∧ first < last ∧ last ≤ 1) :
    PartOf segment (segment.between first last)

/-- A part of one of the segments of an outline, numbered like it. -/
def OwnPart (outline : Path P) (piece : Nat × Segment P) : Prop :=
  ∃ segment, (piece.1, segment) ∈ outline.trace ∧ PartOf segment piece.2

end Parts

section Pieces

variable {P : Type} [Scalar P] [Scalar.Lengthwise P] [Measure P]

open Scalar

/-- A place at which a part may end lies on the segment. -/
theorem Boundary.inside {segment : Segment P} {place : P} (boundary : Boundary segment place)
    (stays : StaysOn segment) : 0 ≤ place ∧ place ≤ 1 := by
  have zero_le_one : (0 : P) ≤ 1 := Ordered.ofNat_nonneg 1
  cases boundary with
  | start => exact ⟨Ordered.ofNat_nonneg 0, zero_le_one⟩
  | finish => exact ⟨zero_le_one, Ordered.le_self (Ordered.numbers_of_le zero_le_one).2⟩
  | along nonneg within => exact stays _ nonneg within

/-- A length that is within a segment on the whole is a boundary in it. What of it is behind the
beginning of the segment may have been rounded, but is still a length of the segment. -/
theorem boundary_within {measured : Measured P} {covered length : P}
    (own : measured.length = Measure.length measured.segment) (nonneg : 0 ≤ measured.length)
    (before : 0 ≤ covered) (behind : covered < length)
    (notBehind : ¬ covered + measured.length ≤ length) :
    Boundary measured.segment (Measure.parameterAt measured.segment (length - covered)) := by
  obtain ⟨least, most⟩ := Lengthwise.rest_within before nonneg behind notBehind
  exact .along least (own ▸ most)

/-- What is cut out of a segment is a part of it. -/
theorem piece_part_of {measured : Measured P} {covered low high : P} {piece : Segment P}
    (own : measured.length = Measure.length measured.segment) (nonneg : 0 ≤ measured.length)
    (before : 0 ≤ covered)
    (found : piece? measured covered (covered + measured.length) low high = some piece) :
    PartOf measured.segment piece := by
  simp only [piece?, Bool.or_eq_true, decide_eq_true_eq] at found
  split at found
  case isTrue => cases found
  case isFalse within =>
    obtain ⟨notBehind, notBefore⟩ := not_or.mp within
    have begins : Boundary measured.segment
        (if covered < low then Measure.parameterAt measured.segment (low - covered) else 0) := by
      split
      case isTrue less => exact boundary_within own nonneg before less notBehind
      case isFalse => exact .start
    have ends : Boundary measured.segment
        (if high < covered + measured.length then
          Measure.parameterAt measured.segment (high - covered) else 1) := by
      split
      case isTrue less =>
        have numbers := (Ordered.numbers_of_le before).2
        exact boundary_within own nonneg before
          (lt_of_not_le numbers (Ordered.numbers_of_lt less).1 notBefore)
          (Successive.not_le_of_lt less)
      case isFalse => exact .finish
    generalize (if covered < low then Measure.parameterAt measured.segment (low - covered)
      else 0) = first at begins found
    generalize (if high < covered + measured.length then
      Measure.parameterAt measured.segment (high - covered) else 1) = last at ends found
    split at found
    case isTrue => cases found
    case isFalse some =>
      split at found
      case isTrue =>
        cases found
        exact .whole
      case isFalse =>
        cases found
        refine .between begins ends fun stays => ?_
        obtain ⟨firstLeast, firstMost⟩ := begins.inside stays
        obtain ⟨lastLeast, lastMost⟩ := ends.inside stays
        refine ⟨firstLeast, ?_, lastMost⟩
        exact lt_of_not_le (Ordered.numbers_of_le firstLeast).2 (Ordered.numbers_of_le lastLeast).2
          fun back => some (Lengthwise.sub_nonpos lastLeast back firstMost)

/-- Measured segments are segments of the outline, and their lengths are not negative. -/
theorem measure_own {outline : Path P} {measured : Measured P}
    (member : measured ∈ measure outline) :
    (measured.subpath, measured.segment) ∈ outline.trace ∧
      measured.length = Measure.length measured.segment ∧ 0 ≤ measured.length := by
  obtain ⟨inside, long⟩ := List.mem_filter.mp member
  obtain ⟨traced, there, rfl⟩ := List.mem_map.mp inside
  exact ⟨there, rfl, Lengthwise.le_trans (Ordered.ofScientific_nonneg 1 true 6)
    (le_of_lt (of_decide_eq_true long))⟩

/-- Pieces of an outline are parts of its own segments. -/
theorem pieces_own {outline : Path P} (low high : P) {covered : P} (before : 0 ≤ covered)
    {segments : List (Measured P)} (counted : segments ⊆ measure outline) :
    ∀ piece ∈ pieces low high covered segments, OwnPart outline piece := by
  induction segments generalizing covered with
  | nil => exact List.forall_mem_nil _
  | cons measured rest inductionHypothesis =>
    obtain ⟨here, others⟩ := List.cons_subset.mp counted
    obtain ⟨traced, own, nonneg⟩ := measure_own here
    intro piece member
    rcases List.mem_append.mp member with first | behind
    · obtain ⟨cut, found, rfl⟩ := Option.map_eq_some_iff.mp (Option.mem_toList.mp first)
      exact ⟨measured.segment, traced, piece_part_of own nonneg before found⟩
    · exact inductionHypothesis (Lengthwise.add_nonneg before nonneg) others piece behind

end Pieces

section Drawn

variable {P : Type} [Scalar P]

/-- How pieces make an outline. The cursor is where the last piece has ended. A piece is drawn from a
move to its first point, or without one if it is on the subpath of the last piece and begins right
next to where that has ended. -/
inductive Joined (own : Nat × Segment P → Prop) : Cursor P → Path P → Prop
  | done {cursor : Cursor P} : Joined own cursor []
  | afresh {cursor : Cursor P} {subpath : Nat} {piece : Segment P} {rest : Path P}
    (mine : own (subpath, piece)) (behind : Joined own (some (subpath, piece.finish)) rest) :
    Joined own cursor (.move piece.start :: piece.element :: rest)
  | onward {subpath : Nat} {last : Vec2 P} {piece : Segment P} {rest : Path P}
    (mine : own (subpath, piece)) (near : (last - piece.start).length < negligible)
    (behind : Joined own (some (subpath, piece.finish)) rest) :
    Joined own (some (subpath, last)) (piece.element :: rest)

variable {own : Nat × Segment P → Prop}

/-- Drawing pieces joins those that meet. -/
theorem joined_drawn (cursor : Cursor P) {list : List (Nat × Segment P)}
    (mine : ∀ piece ∈ list, own piece) : Joined own cursor (drawn cursor list) := by
  induction list generalizing cursor with
  | nil => exact .done
  | cons first rest inductionHypothesis =>
    obtain ⟨here, others⟩ := List.forall_mem_cons.mp mine
    have behind := inductionHypothesis (some (first.1, first.2.finish)) others
    rw [drawn]
    split
    next continued =>
      rcases cursor with _ | ⟨subpath, last⟩
      · cases continued
      · rw [continues, Bool.and_eq_true, beq_iff_eq, decide_eq_true_eq] at continued
        obtain ⟨rfl, near⟩ := continued
        exact .onward here near behind
    next => exact .afresh here behind

/-- What is joined from nothing begins with a move, unless it is empty. -/
theorem Joined.starts {kept : Path P} (joined : Joined own none kept) (some : kept ≠ []) :
    kept.startsWithMove = true := by
  cases joined with
  | done => exact absurd rfl some
  | afresh => rfl

/-- What is joined is not closed. -/
theorem Joined.unclosed {cursor : Cursor P} {kept : Path P} (joined : Joined own cursor kept) :
    PathElement.close ∉ kept := by
  have drawing (piece : Segment P) : PathElement.close ≠ piece.element := by
    cases piece <;> nofun
  induction joined with
  | done => exact List.not_mem_nil
  | afresh mine behind inductionHypothesis =>
    exact List.not_mem_cons_of_ne_of_not_mem nofun
      (List.not_mem_cons_of_ne_of_not_mem (drawing _) inductionHypothesis)
  | onward mine near behind inductionHypothesis =>
    exact List.not_mem_cons_of_ne_of_not_mem (drawing _) inductionHypothesis

end Drawn

section Alignment

variable {P : Type} [Scalar P] [Measure P]

/-- What a trim may leave of an outline. -/
structure Aligned (outline kept : Path P) : Prop where
  starts : kept ≠ [] → kept.startsWithMove = true
  unclosed : PathElement.close ∉ kept
  joined : Joined (OwnPart outline) none kept

/-- The ends of a window of fractions in order, neither below zero nor above one. -/
def ends (start finish : P) : P × P :=
  let start := Scalar.clamp start 0 1
  let finish := Scalar.clamp finish 0 1
  if finish < start then (finish, start) else (start, finish)

/-- A window that keeps everything. -/
def Full (start finish : P) : Prop := (ends start finish).1 ≤ 0 ∧ 1 ≤ (ends start finish).2

/-- What is joined of parts of an outline is aligned with it. -/
theorem Aligned.of_joined {outline kept : Path P} (joined : Joined (OwnPart outline) none kept) :
    Aligned outline kept := ⟨joined.starts, joined.unclosed, joined⟩

/-- Nothing is aligned with every outline. -/
theorem nothing_aligned (outlines : List (Path P)) :
    List.Forall₂ Aligned outlines (outlines.map fun _ => []) := by
  rw [List.forall₂_map_right_iff, List.forall₂_same]
  exact fun _ _ => .of_joined .done

variable [Scalar.Lengthwise P]

/-- Every outline is cut on its own: no piece of another one is in front of its first piece. -/
theorem cut_all_aligned (spans : List (P × P)) (base : P) (outlines : List (Path P)) :
    List.Forall₂ Aligned outlines (cutAll spans base (outlines.map measure)) := by
  induction outlines generalizing base with
  | nil => exact .nil
  | cons outline rest inductionHypothesis =>
    rw [List.map_cons, cutAll, cut_spans_drawn]
    refine .cons (.of_joined (joined_drawn none fun piece member => ?_)) (inductionHypothesis _)
    obtain ⟨span, -, inside⟩ := List.mem_flatMap.mp member
    exact pieces_own _ _ (Scalar.Ordered.ofNat_nonneg 0) (List.Subset.refl _) piece inside

/-- A trim gives one outline for each, in their order: all of them as they are if the window is full,
and otherwise outlines that are aligned with their originals. -/
theorem paths_aligned (outlines : List (Path P)) (start finish offset : P) :
    (paths outlines start finish offset).length = outlines.length ∧
      (Full start finish ∧ paths outlines start finish offset = outlines ∨
        List.Forall₂ Aligned outlines (paths outlines start finish offset)) := by
  suffices kept : Full start finish ∧ paths outlines start finish offset = outlines ∨
      List.Forall₂ Aligned outlines (paths outlines start finish offset) by
    refine ⟨?_, kept⟩
    obtain ⟨-, same⟩ | aligned := kept
    · rw [same]
    · exact aligned.length_eq.symm
  simp only [Full, paths]
  rw [← ends]
  obtain ⟨low, high⟩ := ends start finish
  dsimp only
  split
  · exact .inr (nothing_aligned outlines)
  split
  next full =>
    rw [Bool.and_eq_true, decide_eq_true_eq, decide_eq_true_eq] at full
    exact .inl ⟨full, rfl⟩
  split
  · exact .inr (nothing_aligned outlines)
  · exact .inr (cut_all_aligned _ _ outlines)

end Alignment

/-- The ends of an exact window are fractions. -/
theorem ends_exact (start finish : ℝ) :
    ends start finish = (lower start finish, upper start finish) := by
  simp only [ends, Exact.numeral_zero, Exact.numeral_one, clamp_fraction, lower, upper]
  split
  next swapped => rw [min_eq_right swapped.le, max_eq_left swapped.le]
  next inOrder => rw [min_eq_left (not_lt.mp inOrder), max_eq_right (not_lt.mp inOrder)]

/-- The second line is drawn from the end of the first, and both are parts of lines of the ledge. -/
theorem ledge_aligned :
    path ledge 0 (9 / 10) 0 =
        [.move ⟨0, 45 / 10 ^ 7⟩, .line ⟨10, 45 / 10 ^ 7⟩, .line ⟨18, 54 / 10 ^ 7⟩] ∧
      Aligned ledge
        [.move ⟨0, 45 / 10 ^ 7⟩, .line ⟨10, 45 / 10 ^ 7⟩, .line ⟨18, 54 / 10 ^ 7⟩] := by
  refine ⟨ledge_cut, ?_⟩
  obtain ⟨-, ⟨full, -⟩ | aligned⟩ := paths_aligned [ledge] 0 (9 / 10) 0
  · have whole := full.2
    rw [ends_exact, ledge_window.2, Exact.numeral_one] at whole
    norm_num at whole
  · obtain ⟨kept, rest, own, -, same⟩ := List.forall₂_cons_left_iff.mp aligned
    rwa [← ledge_cut, path, same]

end VectorMotion.Trim
