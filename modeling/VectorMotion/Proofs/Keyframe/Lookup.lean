import VectorMotion.Keyframe.Track
import VectorMotion.Proofs.Scalar.Ordering

/-!
# Looking up the value of a track

The value of a track at a time is found by an index into its spans, and on the way there two
fractions are kept between zero and one. Here the value is found by steps that may fail: a span is
read at an index that need not be one of the track, and a range to be kept within may be refused. No
step does fail, and what is found is the value of the track.
-/

namespace VectorMotion

variable {S : Type} [Scalar S]

namespace Easing

/-- Newton's method with a range that may be refused. -/
def refine? (first second time : S) : Nat → S → Option S
  | 0, t => some t
  | steps + 1, t => do
    let miss := coordinate first second t - time
    let steep := slope first second t
    if Scalar.abs miss < closeEnough then return t
    else if Scalar.abs steep < flat then return t
    else refine? first second time steps (← Scalar.clamp? (t - miss / steep) 0 1)

/-- The fraction of the way, found by steps that may fail. -/
def ease? (first second : Vec2 S) (time : S) : Option S := do
  if time ≤ 0 then return 0
  else if 1 ≤ time then return 1
  else if first.x == first.y && second.x == second.y then return time
  else return coordinate first.y second.y (← refine? first.x second.x time mostSteps time)

variable [Scalar.Ordered S]

/-- Refining a guess never fails. -/
theorem refine_found (first second time : S) (steps : Nat) (t : S) :
    refine? first second time steps t = some (refine first second time steps t) := by
  induction steps generalizing t with
  | zero => rfl
  | succ steps inductionHypothesis =>
    rw [refine?, refine, Scalar.clamp_fraction]
    split
    · rfl
    · split
      · rfl
      · exact inductionHypothesis _

/-- Easing a time never fails. -/
theorem ease_found (first second : Vec2 S) (time : S) :
    ease? first second time = some (ease first second time) := by
  rw [ease?, ease, refine_found]
  split
  · rfl
  · split
    · rfl
    · split <;> rfl

end Easing

variable {V : Type} [Blend S V]

/-- The value of a span at a time, found by steps that may fail. -/
def Span.valueAt? (span : Span S V) (curved : Bool) (time : S) : Option V := do
  if span.hold then return span.start
  else
    let duration := span.endTime - span.startTime
    if span.endTime ≤ time || duration ≤ 0 then return span.finish
    else
      let passed ← Scalar.clamp? ((time - span.startTime) / duration) 0 1
      let way ← Easing.ease? span.easeOut span.easeIn passed
      if curved then return Blend.mixAlong span.start span.finish way span.tangentOut span.tangentIn
      else return Blend.mix span.start span.finish way

/-- Looking up the value of a span at a time does not fail. -/
theorem Span.value_found [Scalar.Ordered S] (span : Span S V) (curved : Bool) (time : S) :
    span.valueAt? curved time = some (span.valueAt curved time) := by
  rw [valueAt?, valueAt]
  split
  · rfl
  · dsimp only
    split
    · rfl
    · rw [Scalar.clamp_fraction, Option.bind_eq_bind, Option.bind_some, Easing.ease_found,
        Option.bind_some]
      split <;> rfl

namespace Track

/-- The value of a track at a time, found by steps that may fail. -/
def valueAt? (track : Track S V) (time : S) : Option V :=
  match track.spans[0]? with
  | none => some track.value
  | some first => do
    let last ← track.spans[search track.spans time 0 track.spans.size]?
    if last.startTime ≤ time then last.valueAt? track.curved time else return first.start

omit [Blend S V] in
/-- The search stays within the spans that it halves. -/
theorem search_within (spans : Array (Span S V)) (time : S) (base size : Nat) (some : 0 < size) :
    search spans time base size < base + size := by
  fun_induction search spans time base size with
  | case1 base size small => omega
  | case2 base size large half starts inductionHypothesis =>
    have upper := inductionHypothesis (by omega)
    omega
  | case3 base size large half starts inductionHypothesis =>
    have lower := inductionHypothesis (by omega)
    omega

/-- Looking up the value of a track at a time does not fail. -/
theorem value_found [Scalar.Ordered S] (track : Track S V) (time : S) :
    track.valueAt? time = some (track.valueAt time) := by
  unfold valueAt? valueAt spanAt?
  cases start : track.spans[0]? with
  | none =>
    have empty : track.spans.size = 0 := by simpa using start
    simp [startsBy, empty]
  | some first =>
    have filled : 0 < track.spans.size := (Array.getElem?_eq_some_iff.mp start).1
    have within := search_within track.spans time 0 track.spans.size filled
    obtain ⟨last, read⟩ :
        ∃ last, track.spans[search track.spans time 0 track.spans.size]? = some last :=
      ⟨_, Array.getElem?_eq_getElem (by simpa using within)⟩
    simp only [startsBy, read, Option.bind_eq_bind, Option.bind_some]
    by_cases started : last.startTime ≤ time
    · simp [started, Span.value_found]
    · simp [started]

end Track

end VectorMotion
