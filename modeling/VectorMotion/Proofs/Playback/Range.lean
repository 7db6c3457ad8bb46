import Mathlib
import VectorMotion.Proofs.FrameRange
import VectorMotion.Proofs.Playback.Freshness

/-!
# Played frames and exported frames

The exporter counts from the first whole frame that is not before the in point, and so rounds the in
point up. A player keeps its position between the in point and the out point and shows the last
whole frame that is not after it, and so rounds down. Before the out point both come to the same:
the last frame below the out point is the last one that is exported. At the in point they differ by
one frame, unless the in point is whole.

All of this is stated in exact arithmetic, where going around in a circle loses nothing.
-/

namespace VectorMotion

namespace Exact

/-- What is wrapped lies on the circle. -/
theorem wrap_between (a b : ℝ) (positive : 0 < b) :
    0 ≤ Scalar.wrap a b ∧ Scalar.wrap a b < b := by
  rw [wrapped a positive]
  exact ⟨mul_nonneg (Int.fract_nonneg _) positive.le,
    mul_lt_of_lt_one_left positive (Int.fract_lt_one _)⟩

end Exact

namespace FrameRange

variable {info : Scene.Info ℝ}

/-- Of a position between the in point and the out point, the last frame that is not after it is
exported unless the position is before the first exported frame, and then it is the frame before
that. -/
theorem floor_exported (spans : info.Spans) {position : ℝ} (started : info.inPoint ≤ position)
    (unended : position < info.outPoint) :
    (ofInfo info).first - 1 ≤ ⌊position⌋ ∧ ⌊position⌋ ≤ (ofInfo info).last ∧
      (⌊position⌋ ∈ (ofInfo info).frames ↔ ((ofInfo info).first : ℝ) ≤ position) := by
  rw [mem_frames, ofInfo_exact spans]
  have near : ⌈info.inPoint⌉ - 1 ≤ ⌊position⌋ := by
    have rounded : (⌈info.inPoint⌉ : ℝ) < (⌊position⌋ + 2 : ℤ) := by
      have above := Int.ceil_lt_add_one info.inPoint
      have below := Int.lt_floor_add_one position
      push_cast
      linarith
    have apart : ⌈info.inPoint⌉ < ⌊position⌋ + 2 := Int.cast_lt.mp rounded
    omega
  have ended : ⌊position⌋ ≤ ⌈info.outPoint⌉ - 1 := by
    have below : ⌊position⌋ < ⌈info.outPoint⌉ :=
      Int.lt_ceil.mpr ((Int.floor_le position).trans_lt unended)
    omega
  refine ⟨near, le_max_of_le_left ended, ?_⟩
  rw [Int.le_floor]
  exact and_iff_left (le_max_of_le_left ended)

end FrameRange

namespace Player

variable {P : Type} [Scalar P] [Widen ℝ P] [Measure P] {info : Scene.Info ℝ}

/-- A player of a document that is somewhere from its in point up to its out point. -/
structure Inside (info : Scene.Info ℝ) (player : Player ℝ P) : Prop where
  same : player.scene.info = info
  started : info.inPoint ≤ player.position
  unended : player.position < info.outPoint

/-- A position that is brought back lies on the circle from the in point to the out point. -/
theorem looped_inside (ordered : info.inPoint < info.outPoint) (position : ℝ) :
    info.inPoint ≤ looped info position ∧ looped info position < info.outPoint := by
  have duration : 0 < info.outPoint - info.inPoint := sub_pos.mpr ordered
  have looping : looped info position =
      if info.outPoint ≤ position ∨ position < info.inPoint then
        info.inPoint + Scalar.wrap (position - info.inPoint) (info.outPoint - info.inPoint)
      else position := by
    simp [looped, Exact.numeral, ordered]
  rw [looping]
  split
  case isTrue =>
    obtain ⟨above, below⟩ := Exact.wrap_between (position - info.inPoint) _ duration
    constructor <;> linarith
  case isFalse inside =>
    rw [not_or, not_le, not_lt] at inside
    exact ⟨inside.2, inside.1⟩

/-- A frame that is sought is brought to the nearest end of the document. -/
theorem sought_inside (ordered : info.inPoint < info.outPoint) (position : ℝ) :
    info.inPoint ≤ Scalar.clamp position info.inPoint (lastFrame info) ∧
      Scalar.clamp position info.inPoint (lastFrame info) < info.outPoint := by
  have last : lastFrame info = max (info.outPoint - 1) info.inPoint := by
    rw [lastFrame, Exact.greater]
    simp [Exact.numeral]
  have lastBelow : lastFrame info < info.outPoint := by
    rw [last]
    exact max_lt (sub_one_lt _) ordered
  have lastAbove : info.inPoint ≤ lastFrame info := by
    rw [last]
    exact le_max_right _ _
  rw [Scalar.clamp]
  split
  case isTrue => exact ⟨le_rfl, ordered⟩
  case isFalse notBelow =>
    split
    case isTrue => exact ⟨lastAbove, lastBelow⟩
    case isFalse notAbove => exact ⟨not_lt.mp notBelow, (not_lt.mp notAbove).trans_lt lastBelow⟩

/-- Bringing the scene to another frame changes neither the document nor the position. -/
theorem Inside.refresh {player : Player ℝ P} (inside : player.Inside info) :
    player.refresh.Inside info := by
  have same : player.refresh.scene.info = player.scene.info := by
    unfold Player.refresh
    dsimp only
    split <;> rfl
  have position := (refresh_at_frame player).1
  exact ⟨same.trans inside.same, position ▸ inside.started, position ▸ inside.unended⟩

/-- No move takes a player out of the range of the document. -/
theorem Inside.move {player : Player ℝ P} (ordered : info.inPoint < info.outPoint)
    (inside : player.Inside info) (move : Move ℝ) : (player.move move).Inside info := by
  obtain ⟨same, -, -⟩ := inside
  subst same
  cases move with
  | advance seconds =>
    obtain ⟨started, unended⟩ := looped_inside ordered
      (player.position + seconds * player.scene.info.frameRate)
    exact Inside.refresh ⟨rfl, started, unended⟩
  | seek frame =>
    obtain ⟨started, unended⟩ := sought_inside ordered (Scalar.ofInt frame)
    exact Inside.refresh ⟨rfl, started, unended⟩

/-- No run of moves leaves the document. -/
theorem play_inside (ordered : info.inPoint < info.outPoint) (scene : Scene ℝ P)
    (same : scene.info = info) (moves : List (Move ℝ)) :
    ((ofScene scene).play moves).Inside info := by
  induction moves using List.reverseRecOn with
  | nil =>
    subst same
    exact Inside.refresh ⟨rfl, le_rfl, ordered⟩
  | append_singleton earlier last inductionHypothesis =>
    rw [play, List.foldl_append]
    exact inductionHypothesis.move ordered last

/-- Whatever has been asked of a player last, its scene is at the last whole frame that is not after
the position. -/
theorem play_shows_floor (scene : Scene ℝ P) (moves : List (Move ℝ)) :
    let player := (ofScene scene).play moves
    player.scene.frame = (⌊player.position⌋ : ℝ) := by
  intro player
  -- Every move ends with a refresh, and so does the beginning: the last one is what is shown.
  obtain ⟨before, refreshed⟩ : ∃ before : Player ℝ P, player = before.refresh := by
    cases moves using List.reverseRecOn with
    | nil => exact ⟨_, rfl⟩
    | append_singleton earlier last =>
      obtain ⟨position, moved⟩ := ((ofScene scene).play earlier).move_refreshes last
      refine ⟨_, Eq.trans ?_ moved⟩
      simp only [player, play, List.foldl_append]
      rfl
  obtain ⟨position, atFrame⟩ := refresh_at_frame before
  have shown : ((⌊player.position⌋ : ℝ) == player.scene.frame) = true := by
    rw [refreshed]
    exact atFrame (Exact.is_number _)
  exact (of_decide_eq_true shown).symm

/-- A player shows whole frames from the one before the first that is exported to the last that is
exported. After each run of moves, and before the first, the frame that it shows is exported just in
case the position has reached the first exported frame. So no run shows a frame that would not be
exported just in case the document begins at a whole frame. -/
theorem shown_frames (scene : Scene ℝ P) (spans : scene.info.Spans) :
    let range := FrameRange.ofInfo scene.info
    range.clip none none = .ok range ∧
      (∀ moves : List (Move ℝ),
        let player := (ofScene scene).play moves
        ∃ shown : ℤ, player.scene.frame = (shown : ℝ) ∧ player.currentFrame = shown ∧
          range.first - 1 ≤ shown ∧ shown ≤ range.last ∧
          (shown ∈ range.frames ↔ (range.first : ℝ) ≤ player.position)) ∧
      ((∀ moves : List (Move ℝ), ((ofScene scene).play moves).currentFrame ∈ range.frames) ↔
        (range.first : ℝ) = scene.info.inPoint) := by
  intro range
  have first : range.first = ⌈scene.info.inPoint⌉ :=
    congrArg FrameRange.first (FrameRange.ofInfo_exact spans)
  have ordered : range.first ≤ range.last := by
    simp only [range, FrameRange.ofInfo_exact spans]
    exact le_max_right _ _
  have current (moves : List (Move ℝ)) : ((ofScene scene).play moves).currentFrame =
      ⌊((ofScene scene).play moves).position⌋ := by
    have inside := play_inside spans.ordered scene rfl moves
    apply Exact.truncated_whole
    · exact Int.le_floor.mpr (spans.atLeast.trans inside.started)
    · have below := (Int.floor_le _).trans (inside.unended.le.trans spans.atMost)
      exact_mod_cast below
  have exported (moves : List (Move ℝ)) :=
    have inside := play_inside spans.ordered scene rfl moves
    FrameRange.floor_exported spans inside.started inside.unended
  refine ⟨range.clip_whole ordered, fun moves => ?_, ?_⟩
  · exact ⟨_, play_shows_floor scene moves, current moves, exported moves⟩
  · simp only [current]
    constructor
    -- The run without moves stands at the in point, so a frame exported there makes it whole.
    · intro all
      have position : ((ofScene scene).play []).position = scene.info.inPoint :=
        (refresh_at_frame _).1
      have reached := (exported []).2.2.mp (all [])
      rw [position] at reached
      apply le_antisymm reached
      rw [first]
      exact Int.le_ceil _
    · intro whole moves
      have inside := play_inside spans.ordered scene rfl moves
      apply (exported moves).2.2.mpr
      exact whole.le.trans inside.started

/-- From the tenth frame on, thirty frames are exported and no other is shown. -/
theorem thirty_frames_agree :
    let scene : Scene ℝ ℝ := Scene.ofDocument {} thirtyFrames
    scene.info.Spans ∧
      ∀ moves : List (Move ℝ),
        ((ofScene scene).play moves).currentFrame ∈ (FrameRange.ofInfo scene.info).frames := by
  intro scene
  have spans : scene.info.Spans := by
    constructor <;>
      norm_num [scene, Scene.ofDocument, Scene.update, Scene.Info.ofDocument, thirtyFrames,
        FrameRange.least, FrameRange.greatest]
  refine ⟨spans, (shown_frames scene spans).2.2.mpr ?_⟩
  rw [FrameRange.ofInfo_exact spans]
  norm_num [scene, Scene.ofDocument, Scene.update, Scene.Info.ofDocument, thirtyFrames]

/-- One frame that begins half a frame late, and nothing on it. -/
noncomputable def lateFrame : Document ℝ :=
  { inPoint := 1 / 2, outPoint := 3 / 2, frameRate := 30 }

/-- A player of the late frame begins with the frame before it, which is not exported. -/
theorem frame_before_start_shown :
    let scene : Scene ℝ ℝ := Scene.ofDocument {} lateFrame
    (ofScene scene).scene.frame = 0 ∧ (FrameRange.ofInfo scene.info).frames = [1] := by
  intro scene
  have spans : scene.info.Spans := by
    constructor <;>
      norm_num [scene, Scene.ofDocument, Scene.update, Scene.Info.ofDocument, lateFrame,
        FrameRange.least, FrameRange.greatest]
  constructor
  · have position : (ofScene scene).position = 1 / 2 := (refresh_at_frame _).1
    have shown : (ofScene scene).scene.frame = (⌊(ofScene scene).position⌋ : ℝ) :=
      play_shows_floor scene []
    rw [shown, position]
    norm_num
  · have inPoint : ⌈scene.info.inPoint⌉ = 1 := by
      norm_num [scene, Scene.ofDocument, Scene.update, Scene.Info.ofDocument, lateFrame]
    have outPoint : ⌈scene.info.outPoint⌉ = 2 := by
      norm_num [scene, Scene.ofDocument, Scene.update, Scene.Info.ofDocument, lateFrame]
    rw [FrameRange.ofInfo_exact spans, inPoint, outPoint]
    rfl

end Player

end VectorMotion
