import VectorMotion.Render.Call
import VectorMotion.Scene.Tree

/-!
# Scenes

A document brought to life: what is known about it as a whole, its tree, and the time the tree was
last brought to. A scene is a value, so to keep the picture of one frame it is enough to keep the
scene.
-/

namespace VectorMotion

variable {S P : Type} [Scalar S] [Scalar P] [Widen S P] [Measure P]

namespace Scene

/-- What is known about a document as a whole. -/
structure Info (S : Type) where
  name : Option String := none
  version : Option String := none
  width : Nat := 0
  height : Nat := 0
  frameRate : S
  inPoint : S
  outPoint : S
  deriving Repr, Inhabited

namespace Info

/-- What a document says about itself. -/
def ofDocument (document : Document S) : Info S :=
  { name := document.name
    version := document.version
    width := document.width
    height := document.height
    frameRate := document.frameRate
    inPoint := document.inPoint
    outPoint := document.outPoint }

/-- Of no document at all. -/
def blank : Info S := { frameRate := 0, inPoint := 0, outPoint := 0 }

/-- The greatest number of frames that is told apart. -/
def mostFrames : Int := 4294967295

/-- The number of whole frames from the in point up to the out point. -/
def frameCount (info : Info S) : Nat :=
  (Scalar.truncateInto 0 mostFrames (Scalar.max (info.outPoint - info.inPoint) 0)).toNat

end Info

end Scene

/-- A document at a time. -/
structure Scene (S P : Type) where
  info : Scene.Info S
  tree : Scene.Tree S P
  /-- The time the tree was last brought to. -/
  frame : S
  deriving Repr, Inhabited

namespace Scene

/-- A scene of no document. -/
def blank : Scene S P := { info := Info.blank, tree := Tree.empty, frame := 0 }

/-- The scene brought to a time. -/
def update (scene : Scene S P) (frame : S) : Scene S P :=
  { scene with tree := scene.tree.update frame, frame }

/-- The scene of a document at its in point, under the settings of the user. -/
def ofDocument (settings : Trim.Settings) (document : Document S) : Scene S P :=
  let info := Info.ofDocument document
  update { info, tree := Tree.ofDocument settings document, frame := info.inPoint } info.inPoint

/-- The calls that draw the scene. -/
def calls (scene : Scene S P) : List (Render.Call S P) := Render.Call.ofRoot scene.tree.root

/-- Whether a path of the scene cannot be made. -/
def isUnbounded (scene : Scene S P) : Bool := scene.tree.isUnbounded

end Scene

end VectorMotion
