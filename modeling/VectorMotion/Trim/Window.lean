import VectorMotion.Trim.Cut
import VectorMotion.Trim.Mode

/-!
# Trim windows

The window of a trim at one moment: start and finish in percent of the length and an offset in
degrees, of which a full turn shifts the window once around the outline. Windows compose. A window
that meets another one is taken for a part of it, so that a trim inside a trimmed group shows its
share of what the group shows.
-/

namespace VectorMotion.Trim

/-- A trim at one moment. -/
structure Window (S : Type) where
  name : String
  start : S
  finish : S
  offset : S
  mode : Mode
  deriving Repr, BEq, Inhabited

namespace Window

variable {S P : Type} [Scalar S] [Scalar P] [Widen S P] [Measure P]

/-- Whether the outlines of a container are trimmed together. -/
def simultaneous (window : Window S) : Bool := window.mode == .simultaneous

/-- The offset as a fraction of a turn. -/
def turns (window : Window S) : S := window.offset / 360

/-- The window as a part of an outer one: fractions of the outer range, offsets added. The mode
stays. -/
def within (window outer : Window S) : Window S :=
  let range := outer.finish - outer.start
  { name := window.name ++ " & " ++ outer.name
    start := outer.start + window.start / 100 * range
    finish := outer.start + window.finish / 100 * range
    offset := window.offset + outer.offset
    mode := window.mode }

/-- A percentage as a fraction of a length. -/
def fraction (percent : S) : P := widen percent / 100

/-- What the window keeps of paths that are trimmed together. -/
def cutTogether (window : Window S) (outlines : List (Path P)) : List (Path P) :=
  paths outlines (fraction window.start) (fraction window.finish) (widen window.turns)

/-- What the window keeps of one path. -/
def cut (window : Window S) (outline : Path P) : Path P :=
  path outline (fraction window.start) (fraction window.finish) (widen window.turns)

/-- The window in force once a container that has `current` meets a trim. -/
def meet (current : Option (Window S)) (window : Window S) : Window S :=
  match current with
  | some current => current.within window
  | none => window

end Window

end VectorMotion.Trim
