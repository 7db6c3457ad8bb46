import VectorMotion.Proofs.FrameRange
import VectorMotion.Proofs.Scalar.Values

/-!
# Frames that are asked for

A user asks for frames from one number to another, and gets those of them that the document has. The
frames of a document are counted in 32 bits, which holds for its ends, whatever the ends are: what is
out of bounds is moved to the nearest frame number. The only thing that is worked out with these numbers
is the frame before the out point. There is one unless the out point is at the least number, or before
it. Then the document should have one frame, but has all from its in point on.
-/

namespace VectorMotion.FrameRange

open Float.Model Float.Model.UnpackedFloat

/-- The frame that a time is rounded up to, as far as frames are numbered. -/
noncomputable def roundedUp (time : Float32) : ℤ :=
  match time.toModel.unpack with
  | .notANumber => 0
  | .infinity .negative => least
  | .infinity .positive => greatest
  | value => max least (min ⌈Rounded.number value⌉ greatest)

/-- The ends of the numbers of frames are at the powers of two, the upper one at the next one. -/
theorem ends_stored :
    (Scalar.ofInt least : Float32).toModel.unpack = .finite .negative (2 ^ 23) 8 (by decide) ∧
      (Scalar.ofInt greatest : Float32).toModel.unpack =
        .finite .positive (2 ^ 23) 8 (by decide) :=
  ⟨rfl, rfl⟩

/-- A whole number within the numbers of frames is kept, and another one moved to the nearer end. -/
theorem truncate_number {time : Float32} (finite : time.toModel.unpack.isFinite = true) {n : ℤ}
    (whole : Single.number time = n) :
    Scalar.truncateInto least greatest time = max least (min n greatest) := by
  obtain ⟨lower, upper⟩ := ends_stored
  have isNumber : Scalar.isNaN time = false := by
    rw [Single.is_nan]
    cases value : time.toModel.unpack <;> simp_all [UnpackedFloat.isFinite, Rounded.sign?]
  have atLeast : time ≤ Scalar.ofInt least ↔ n ≤ least := by
    rw [Single.le_number finite (by rw [lower]; rfl), whole, Single.number, lower,
      ← Int.cast_le (R := ℝ)]
    norm_num [Rounded.number, Sign.apply, least]
  have atMost : Scalar.ofInt greatest ≤ time ↔ greatest < n := by
    rw [Single.le_number (by rw [upper]; rfl) finite, whole, Single.number, upper,
      ← Int.add_one_le_iff, ← Int.cast_le (R := ℝ)]
    norm_num [Rounded.number, Sign.apply, greatest]
  rw [Scalar.truncateInto, isNumber, if_neg Bool.false_ne_true]
  simp only [atLeast, atMost]
  split
  next below => rw [max_eq_left ((min_le_left _ _).trans below)]
  next above =>
    split
    next beyond => rw [min_eq_right beyond.le, max_eq_right (by decide)]
    next within =>
      have truncated : Scalar.truncate time = n :=
        Single.truncate_whole finite whole (by simp only [least] at above; omega)
          (by simp only [greatest] at within; omega)
      rw [truncated, min_eq_left (not_lt.mp within), max_eq_right (not_le.mp above).le]

/-- In single precision the number of a time is exact, whatever the time. -/
theorem number_rounded (time : Float32) : number time = roundedUp time := by
  rw [number, roundedUp]
  change Scalar.truncateInto least greatest (Single.ceil time) = _
  obtain ⟨lower, upper⟩ := ends_stored
  cases value : time.toModel.unpack with
  | notANumber =>
    have kept : Single.ceil time = time := by rw [Single.ceil, value]
    rw [kept, Scalar.truncateInto, Single.is_nan, value]
    rfl
  | infinity sign =>
    have kept : Single.ceil time = time := by rw [Single.ceil, value]
    have isNumber : Scalar.isNaN time = false := by rw [Single.is_nan, value]; rfl
    rw [kept, Scalar.truncateInto, isNumber, if_neg Bool.false_ne_true]
    simp only [Single.le_iff, value, lower, upper]
    cases sign <;> rfl
  | zero sign =>
    obtain ⟨finite, whole⟩ := Single.ceil_number (x := time) (by rw [value]; rfl)
    rw [truncate_number finite whole, Single.number, value]
  | finite sign mantissa exponent positive =>
    obtain ⟨finite, whole⟩ := Single.ceil_number (x := time) (by rw [value]; rfl)
    rw [truncate_number finite whole, Single.number, value]

/-- A time that is rounded up is a frame number that can be held. -/
theorem rounded_up_numbered (time : Float32) : least ≤ roundedUp time ∧ roundedUp time ≤ greatest := by
  have ordered : least ≤ greatest := by decide
  rw [roundedUp]
  split
  · decide
  · exact ⟨le_rfl, ordered⟩
  · exact ⟨ordered, le_rfl⟩
  · exact ⟨le_max_left _ _, max_le ordered (min_le_right _ _)⟩

/-- The number before a frame is worked out right exactly if it is the number of a frame. -/
theorem before_exact (frame : ℤ) : before frame = frame - 1 ↔ frame ≠ least := by
  rw [before]
  split
  next same =>
    rw [eq_of_beq same]
    decide
  next other => simpa using other

/-- What is left of a range are the frames of it that are asked for, and nothing is left only if there
are none. -/
theorem mem_clip (range : FrameRange) (first last : Option ℤ) :
    let asked (n : ℤ) := n ∈ range.frames ∧ (∀ least ∈ first, least ≤ n) ∧ ∀ most ∈ last, n ≤ most
    (∀ part, range.clip first last = .ok part → ∀ n, n ∈ part.frames ↔ asked n) ∧
      ((∃ empty, range.clip first last = .error empty) ↔ ∀ n, ¬ asked n) := by
  intro asked
  set low := max (first.getD range.first) range.first with isLow
  set high := min (last.getD range.last) range.last with isHigh
  have asked_iff (n : ℤ) : asked n ↔ low ≤ n ∧ n ≤ high := by
    simp only [asked, mem_frames]
    cases first <;> cases last <;> simp [isLow, isHigh] <;> omega
  have clipped : range.clip first last = if high < low then .error ⟨low, high⟩ else .ok ⟨low, high⟩ :=
    rfl
  rw [clipped]
  split
  next reversed =>
    refine ⟨by simp, iff_of_true ⟨_, rfl⟩ fun n => ?_⟩
    rw [asked_iff]
    omega
  next ordered =>
    refine ⟨fun part isPart n => ?_, iff_of_false (by simp) fun none => none low ?_⟩
    · obtain rfl := Except.ok.inj isPart
      rw [asked_iff, mem_frames]
    · exact (asked_iff low).mpr ⟨le_rfl, not_lt.mp ordered⟩

/-- The frames that are written, whatever the ends of the document are and whatever is asked for. They
start at the in point, rounded up. They end before the out point, rounded up, but not before they start,
unless the out point is at the least number. Then the number of the frame before it is not right, and
they do not end at all. -/
theorem asked_frames (info : Scene.Info Float32) (first last : Option ℤ) :
    let start := roundedUp info.inPoint
    let stop := roundedUp info.outPoint
    let final := if stop = least then greatest else max (stop - 1) start
    let asked (n : ℤ) := start ≤ n ∧ n ≤ final ∧ (∀ least ∈ first, least ≤ n) ∧ ∀ most ∈ last, n ≤ most
    (before (number info.outPoint) = stop - 1 ↔ stop ≠ least) ∧
      (∀ part, (ofInfo info).clip first last = .ok part → ∀ n, n ∈ part.frames ↔ asked n) ∧
      ((∃ empty, (ofInfo info).clip first last = .error empty) ↔ ∀ n, ¬ asked n) := by
  intro start stop final asked
  obtain ⟨-, atMost⟩ := rounded_up_numbered info.inPoint
  have frames : ofInfo info = ⟨start, final⟩ := by
    rw [ofInfo, number_rounded, number_rounded, before]
    by_cases lowest : stop = least
    · simp [start, stop, final, lowest, atMost]
    · simp [start, stop, final, lowest]
  refine ⟨by rw [number_rounded, before_exact], ?_⟩
  simpa only [frames, mem_frames, and_assoc] using mem_clip ⟨start, final⟩ first last

/-- A document that ends before the least number. -/
def longOver : Scene.Info Float32 := { frameRate := 30, inPoint := 0, outPoint := -3000000000 }

/-- It should have the one frame at its in point, but has all frames from there on. -/
theorem never_ends :
    roundedUp longOver.inPoint = 0 ∧ roundedUp longOver.outPoint = least ∧
      (ofInfo longOver).clip none none = .ok ⟨0, greatest⟩ ∧
      (ofInfo longOver).clip (some 5) (some 5) = .ok ⟨5, 5⟩ ∧
      ¬ 5 ≤ max (roundedUp longOver.outPoint - 1) (roundedUp longOver.inPoint) := by
  have start : number longOver.inPoint = 0 := by decide +kernel
  have stop : number longOver.outPoint = least := by decide +kernel
  have whole : (ofInfo longOver).clip none none = .ok ⟨0, greatest⟩ := by
    rw [ofInfo, start, stop]
    rfl
  have part : (ofInfo longOver).clip (some 5) (some 5) = .ok ⟨5, 5⟩ := by
    rw [ofInfo, start, stop]
    rfl
  rw [← number_rounded, ← number_rounded, start, stop]
  exact ⟨rfl, rfl, whole, part, by decide⟩

end VectorMotion.FrameRange
