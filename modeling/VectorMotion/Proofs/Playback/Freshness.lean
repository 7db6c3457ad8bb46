import Mathlib
import VectorMotion.Player
import VectorMotion.Proofs.Scalar.Exact
import VectorMotion.Proofs.Scene.History

/-!
# Players are up to date

A player leaves its scene alone as long as the frame to be shown has not changed. The frame that it
compares with is kept by the scene, which may have been brought to any time before the player got
it. Nothing is out of date all the same: a scene that has been brought to a frame is determined by
that frame, so a scene that is at the frame to be shown is the scene of that frame.

That the scene ends at the frame to be shown needs the position to be a number, and so its floor. A
value that is no number differs from itself, and is brought to the scene again with every call.
-/

namespace VectorMotion

variable {S P : Type} [Scalar S] [Scalar P] [Widen S P] [Measure P]

/-- A scene that has been brought to frames is what it is at the last of them. -/
theorem Scene.update_frame (settings : Trim.Settings) (document : Document S) (frames : List S) :
    let loaded : Scene S P := Scene.ofDocument settings document
    let scene := frames.foldl Scene.update loaded
    scene = loaded.update scene.frame := by
  intro loaded scene
  have start : loaded = loaded.update loaded.frame := by
    simp only [loaded, Scene.ofDocument, Scene.frame_forgotten]
    rfl
  suffices played : ∀ reached : Scene S P, reached = loaded.update reached.frame →
      frames.foldl Scene.update reached =
        loaded.update (frames.foldl Scene.update reached).frame from played loaded start
  induction frames with
  | nil => exact fun _ known => known
  | cons frame rest inductionHypothesis =>
    intro reached known
    refine inductionHypothesis (reached.update frame) ?_
    change reached.update frame = loaded.update frame
    rw [known, Scene.frame_forgotten]

namespace Player

/-- What can be asked of a player. -/
inductive Move (S : Type) where
  | advance (seconds : S)
  | seek (frame : Int)

/-- The player after a move. -/
def move (player : Player S P) : Move S → Player S P
  | .advance seconds => player.advance seconds
  | .seek frame => player.seek frame

/-- The player after some moves. -/
def play (player : Player S P) (moves : List (Move S)) : Player S P := moves.foldl move player

/-- A player whose scene is what a scene is at the frame that it keeps. -/
def Shows (source : Scene S P) (player : Player S P) : Prop :=
  player.scene = source.update player.scene.frame

/-- A player whose scene is at the frame to be shown. -/
def AtFrame (player : Player S P) : Prop := (player.frame == player.scene.frame) = true

/-- Every move sets a position and then brings the scene to it. -/
theorem move_refreshes (player : Player S P) (move : Move S) :
    ∃ position, player.move move = refresh { player with position } := by
  cases move with
  | advance seconds => exact ⟨_, rfl⟩
  | seek frame => exact ⟨_, rfl⟩

/-- Whether the scene is brought to another frame or left alone, it is the scene of the frame that
it keeps. -/
theorem Shows.refresh {source : Scene S P} {player : Player S P} (shows : player.Shows source) :
    player.refresh.Shows source := by
  unfold Player.refresh
  dsimp only
  split
  case isTrue => exact shows
  case isFalse =>
    change player.scene.update player.frame = source.update player.frame
    rw [shows, Scene.frame_forgotten]

/-- The scene is left alone only at the frame to be shown, and otherwise brought there. The position
stays. -/
theorem refresh_at_frame (player : Player S P) :
    player.refresh.position = player.position ∧
      (Scalar.isNaN player.frame = false → player.refresh.AtFrame) := by
  unfold refresh
  dsimp only
  split
  case isTrue same => exact ⟨rfl, fun _ => same⟩
  case isFalse =>
    refine ⟨rfl, fun number => ?_⟩
    change (player.frame == player.frame) = true
    simpa [Scalar.isNaN] using number

/-- A player that has been refreshed last, from a state that shows the scene. -/
theorem play_refreshed (source : Scene S P) (known : source = source.update source.frame)
    (moves : List (Move S)) :
    ∃ before : Player S P, before.Shows source ∧ (ofScene source).play moves = before.refresh := by
  induction moves using List.reverseRecOn with
  | nil => exact ⟨{ scene := source, position := source.info.inPoint }, known, rfl⟩
  | append_singleton earlier last inductionHypothesis =>
    obtain ⟨before, shows, played⟩ := inductionHypothesis
    obtain ⟨position, moved⟩ := ((ofScene source).play earlier).move_refreshes last
    have reached : ((ofScene source).play earlier).Shows source := by
      rw [played]
      exact shows.refresh
    refine ⟨{ (ofScene source).play earlier with position }, reached, ?_⟩
    rw [← moved, play, List.foldl_append]
    rfl

/-- A player never shows what belongs to another frame. Whatever frames its scene has been brought
to before, and whatever moves have been made since, the scene is the one that it was made with
brought to the frame that it keeps, and so the scene that has only just been loaded brought to that
frame. That frame is the floor of the position, if the position is a number: rounding down makes a
number of every number. -/
theorem never_stale (settings : Trim.Settings) (document : Document S) (frames : List S)
    (moves : List (Move S))
    (whole : ∀ x : S, Scalar.isNaN x = false → Scalar.isNaN (Scalar.floor x) = false) :
    let loaded : Scene S P := Scene.ofDocument settings document
    let scene := frames.foldl Scene.update loaded
    let player := (ofScene scene).play moves
    player.scene = scene.update player.scene.frame ∧
      player.scene = loaded.update player.scene.frame ∧
      (Scalar.isNaN player.position = false →
        (Scalar.floor player.position == player.scene.frame) = true) := by
  intro loaded scene player
  have current : scene = loaded.update scene.frame := Scene.update_frame settings document frames
  have known : scene = scene.update scene.frame := by
    rw [current, Scene.frame_forgotten]
    rfl
  obtain ⟨before, shows, played⟩ := play_refreshed scene known moves
  have same : player.scene = scene.update player.scene.frame := by
    rw [show player = before.refresh from played]
    exact shows.refresh
  refine ⟨same, ?_, fun number => ?_⟩
  · rw [same, current, Scene.frame_forgotten]
    rfl
  · obtain ⟨position, atFrame⟩ := before.refresh_at_frame
    rw [show player = before.refresh from played] at number ⊢
    exact atFrame (whole _ (position ▸ number))

/-- Thirty frames at as many a second, and nothing on them. -/
noncomputable def thirtyFrames : Document ℝ := { inPoint := 10, outPoint := 40, frameRate := 30 }

/-- A player that is given the scene between two frames shows the tenth, and still does so half a
frame later. -/
theorem tenth_frame_shown :
    let loaded : Scene ℝ ℝ := Scene.ofDocument {} thirtyFrames
    let player := (ofScene (loaded.update 12.5)).play [.advance (1 / 60)]
    (∀ x : ℝ, Scalar.isNaN x = false → Scalar.isNaN (Scalar.floor x) = false) ∧
      player.position = 10.5 ∧ player.scene = loaded.update 10 := by
  intro loaded player
  have whole (x : ℝ) (_ : Scalar.isNaN x = false) : Scalar.isNaN (Scalar.floor x) = false :=
    Exact.is_number _
  let started := ofScene (loaded.update 12.5)
  have info : started.scene.info = Scene.Info.ofDocument thirtyFrames := by
    obtain ⟨shown, -, -⟩ := never_stale (P := ℝ) {} thirtyFrames [12.5] [] whole
    exact congrArg Scene.info shown
  have startPosition : started.position = 10 := (refresh_at_frame _).1
  have position : player.position = 10.5 := by
    have moved : player.position =
        looped started.scene.info (started.position + 1 / 60 * started.scene.info.frameRate) :=
      (refresh_at_frame _).1
    rw [moved, info, startPosition]
    norm_num [looped, Scene.Info.ofDocument, thirtyFrames]
  obtain ⟨-, shown, atFrame⟩ :=
    never_stale (P := ℝ) {} thirtyFrames [12.5] [.advance (1 / 60)] whole
  have frame : player.scene.frame = 10 := by
    have same : (⌊player.position⌋ : ℝ) = player.scene.frame :=
      of_decide_eq_true (atFrame (Exact.is_number _))
    rw [← same, position]
    norm_num
  exact ⟨whole, position, frame ▸ shown⟩

end Player

end VectorMotion
