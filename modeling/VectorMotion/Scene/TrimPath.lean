import VectorMotion.Document.Shape
import VectorMotion.Scene.Transform
import VectorMotion.Trim.Window

/-!
# Trims over time

A trim among the contents of a layer or a group: the tracks of its window. Its mode does not
change.
-/

namespace VectorMotion.Scene

variable {S : Type} [Scalar S]

/-- A trim and its current window. -/
structure TrimPath (S : Type) where
  start : Track S S
  finish : Track S S
  offset : Track S S
  window : Trim.Window S
  deriving Repr, Inhabited

namespace TrimPath

/-- A trim whose window is that of its tracks. -/
def framed (name : String) (mode : Trim.Mode) (start finish offset : Track S S) : TrimPath S :=
  { start, finish, offset
    window := { name, start := start.value, finish := finish.value, offset := offset.value, mode } }

/-- The trim that a document describes, under the settings of the user. -/
def ofDocument (settings : Trim.Settings) (name : String) (authored : Document.Trim S) :
    TrimPath S :=
  framed name (settings.modeOf authored.mode) (amount 0 authored.start)
    (amount 100 authored.finish) (amount 0 authored.offset)

/-- The trim brought to a time. -/
def update (trim : TrimPath S) (time : S) : TrimPath S :=
  framed trim.window.name trim.window.mode (trim.start.update time) (trim.finish.update time)
    (trim.offset.update time)

end TrimPath

end VectorMotion.Scene
