import VectorMotion.FrameRange

/-!
# Playback

A player turns the time that passes into frames of a scene. Its position moves at the frame rate of
the document and runs around in a circle from the in point to the out point; the scene shows the
last whole frame before the position.
-/

namespace VectorMotion

/-- A scene that is played. -/
structure Player (S P : Type) where
  scene : Scene S P
  /-- The position in frames, which need not be whole. -/
  position : S
  deriving Repr, Inhabited

namespace Player

variable {S P : Type} [Scalar S] [Scalar P] [Widen S P] [Measure P]

/-- The frame to be shown. -/
def frame (player : Player S P) : S := Scalar.floor player.position

/-- Brings the scene to the frame to be shown, unless it is there already. -/
def refresh (player : Player S P) : Player S P :=
  let frame := player.frame
  if frame == player.scene.frame then player
  else { player with scene := player.scene.update frame }

/-- A player at the in point. -/
def ofScene (scene : Scene S P) : Player S P :=
  refresh { scene, position := scene.info.inPoint }

/-- A position brought back between the in point and the out point, when there is anything between
them. -/
def looped (info : Scene.Info S) (position : S) : S :=
  let duration := info.outPoint - info.inPoint
  if 0 < duration && (info.outPoint ≤ position || position < info.inPoint) then
    info.inPoint + Scalar.wrap (position - info.inPoint) duration
  else position

/-- Lets some seconds pass. -/
def advance (player : Player S P) (seconds : S) : Player S P :=
  let info := player.scene.info
  refresh { player with position := looped info (player.position + seconds * info.frameRate) }

/-- The last frame that can be sought. -/
def lastFrame (info : Scene.Info S) : S := Scalar.max (info.outPoint - 1) info.inPoint

/-- Goes to a frame, or to the nearest one of the document. -/
def seek (player : Player S P) (frame : Int) : Player S P :=
  let info := player.scene.info
  refresh
    { player with
      position := Scalar.clamp (Scalar.ofInt frame) info.inPoint (lastFrame info) }

/-- The number of the frame to be shown. -/
def currentFrame (player : Player S P) : Int :=
  Scalar.truncateInto FrameRange.least FrameRange.greatest player.frame

end Player

end VectorMotion
