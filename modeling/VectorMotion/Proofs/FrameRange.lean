import Mathlib.Data.List.Sort
import VectorMotion.FrameRange
import VectorMotion.Proofs.Scalar.Exact

/-!
# Frames of a range

What a range lists are the whole numbers from its first to its last, each once. A range that has
been clipped has at least one of them. In exact arithmetic the range of a document is read off its
ends, both of which are rounded up.
-/

namespace VectorMotion

namespace FrameRange

/-- The frames of a range are those from its first to its last. -/
theorem mem_frames (range : FrameRange) (frame : Int) :
    frame ∈ range.frames ↔ range.first ≤ frame ∧ frame ≤ range.last := by
  simp only [frames, List.mem_map, List.mem_range]
  constructor
  · rintro ⟨index, inside, rfl⟩
    omega
  · rintro ⟨started, ended⟩
    exact ⟨(frame - range.first).toNat, by omega, by omega⟩

/-- The frames of a range rise, each of them once. -/
theorem frames_sorted (range : FrameRange) : range.frames.SortedLT := by
  refine List.Pairwise.sortedLT (List.Pairwise.map _ ?_ List.pairwise_lt_range)
  intro first second before
  omega

/-- A range that ends no earlier than it begins lists as many frames as there are from the one to
the other. -/
theorem frames_length (range : FrameRange) (ordered : range.first ≤ range.last) :
    (range.frames.length : Int) = range.last - range.first + 1 := by
  simp only [frames, List.length_map, List.length_range]
  omega

/-- Among the frames of a range, those of a part of it are the frames of the part. -/
theorem frames_part (range part : FrameRange) (started : range.first ≤ part.first)
    (ended : part.last ≤ range.last) :
    range.frames.filter (· ∈ part.frames) = part.frames := by
  have sorted : (range.frames.filter (· ∈ part.frames)).SortedLT :=
    (range.frames_sorted.pairwise.filter _).sortedLT
  apply sorted.eq_of_mem_iff part.frames_sorted
  intro frame
  simp only [List.mem_filter, decide_eq_true_eq, mem_frames]
  omega

/-- Asked for no part, a range with a frame is given as it is. -/
theorem clip_whole (range : FrameRange) (ordered : range.first ≤ range.last) :
    range.clip none none = .ok range := by
  simp [clip, ordered]

/-- What is left of a range begins and ends within it, and has a frame. -/
theorem clip_within {range part : FrameRange} {first last : Option Int}
    (accepted : range.clip first last = .ok part) :
    range.first ≤ part.first ∧ part.first ≤ part.last ∧ part.last ≤ range.last := by
  unfold clip at accepted
  dsimp only at accepted
  split at accepted
  case isTrue => cases accepted
  case isFalse ordered =>
    cases accepted
    exact ⟨le_max_right _ _, not_lt.mp ordered, min_le_right _ _⟩

end FrameRange

/-- A document of some length, of which the ends are within the numbers of frames. -/
structure Scene.Info.Spans (info : Scene.Info ℝ) : Prop where
  ordered : info.inPoint < info.outPoint
  atLeast : (FrameRange.least : ℝ) ≤ info.inPoint
  atMost : info.outPoint ≤ (FrameRange.greatest : ℝ)

namespace FrameRange

variable {info : Scene.Info ℝ}

/-- Within the numbers of frames, the exact number of a time is the time rounded up. -/
theorem number_exact {time : ℝ} (atLeast : (least : ℝ) ≤ time) (atMost : time ≤ (greatest : ℝ)) :
    number time = ⌈time⌉ := by
  apply Exact.truncated_whole
  · exact_mod_cast atLeast.trans (Int.le_ceil time)
  · exact Int.ceil_le.mpr atMost

/-- Both ends of a document are rounded up, and the frame at the out point is left out. -/
theorem ofInfo_exact (spans : info.Spans) :
    ofInfo info = ⟨⌈info.inPoint⌉, max (⌈info.outPoint⌉ - 1) ⌈info.inPoint⌉⟩ := by
  have outAbove : (least : ℝ) < info.outPoint := spans.atLeast.trans_lt spans.ordered
  -- Only the least number has no frame before it, and a document of some length ends above that.
  have notLeast : ⌈info.outPoint⌉ ≠ least := by
    intro same
    exact absurd (Int.le_ceil info.outPoint) (by rw [same]; exact not_le.mpr outAbove)
  rw [ofInfo, number_exact spans.atLeast (spans.ordered.le.trans spans.atMost),
    number_exact outAbove.le spans.atMost, before]
  simp [notLeast]

end FrameRange

end VectorMotion
