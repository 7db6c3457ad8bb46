import VectorMotion.Keyframe.Track

/-!
# Tracks forget

A track stores the value at the time it was last brought to. The stored value of a track with spans
is never read again: the value at any time comes from the spans alone. A track without spans keeps
its one value. Either way, bringing a track to a time leaves nothing of the times before.
-/

namespace VectorMotion.Track

variable {S V : Type} [Scalar S] [Blend S V]

/-- Bringing a track to a time changes neither its spans nor how they bend. -/
theorem update_spans (track : Track S V) (time : S) :
    (track.update time).spans = track.spans ∧ (track.update time).curved = track.curved := by
  by_cases animated : track.animated = true <;> simp [update, animated]

/-- Whether a track changes with time does not itself change with time. -/
@[simp] theorem update_animated (track : Track S V) (time : S) :
    (track.update time).animated = track.animated := by
  simp only [animated, (update_spans track time).1]

/-- A track that is animated has a first span, so its value at a time never falls back to the one
that is stored. -/
theorem value_at_spans (track other : Track S V) (animated : track.animated = true)
    (spans : other.spans = track.spans) (curved : other.curved = track.curved) (time : S) :
    other.valueAt time = track.valueAt time := by
  have nonempty : track.spans[0]? ≠ none := by
    intro missing
    have small : track.spans.size = 0 := by simpa using missing
    simp [Track.animated, Array.isEmpty, small] at animated
  obtain ⟨first, found⟩ := Option.ne_none_iff_exists'.mp nonempty
  simp only [valueAt, spanAt?, spans, curved, found]

/-- A track without spans keeps its value, whatever the time. -/
theorem value_at_fixed (track : Track S V) (fixed : track.animated = false) (time : S) :
    track.valueAt time = track.value := by
  have empty : track.spans.size = 0 := by simpa [Track.animated, Array.isEmpty] using fixed
  simp [valueAt, spanAt?, startsBy, search, empty]

/-- The stored value is the one at the time the track was last brought to. -/
theorem update_value (track : Track S V) (time : S) :
    (track.update time).value = track.valueAt time := by
  cases animated : track.animated with
  | true => simp [update, animated]
  | false => simp [update, animated, value_at_fixed track animated time]

/-- A track that has been brought to one time and then to another is as if it had been brought to
the other at once. -/
@[simp] theorem update_update (track : Track S V) (earlier later : S) :
    (track.update earlier).update later = track.update later := by
  cases animated : track.animated with
  | false => simp [update, animated]
  | true =>
    obtain ⟨spans, curved⟩ := update_spans track earlier
    have value : (track.update earlier).valueAt later = track.valueAt later :=
      value_at_spans track (track.update earlier) animated spans curved later
    have stillAnimated : (track.update earlier).animated = true := by simp [animated]
    rw [update, if_pos stillAnimated, value, update, if_pos animated, update, if_pos animated]

end VectorMotion.Track
