import VectorMotion.Document.Shape
import VectorMotion.Scene.Transform

/-!
# Repeaters over time

A repeater draws the shapes that follow it several times. Each copy is one more step of its
transform away, and its opacity lies on a ramp from the first copy to the last.
-/

namespace VectorMotion.Scene

variable {S P : Type} [Scalar S] [Scalar P] [Widen S P]

/-- Whether later copies are drawn above earlier ones or below them. -/
inductive Composite where
  | above
  | below
  deriving Repr, DecidableEq, Inhabited

/-- The order of a document's code. -/
def Composite.ofCode (code : Nat) : Composite := if code == 2 then below else above

/-- A repeater. -/
structure Repeater (S : Type) where
  copies : Track S S
  offset : Track S S
  composite : Composite
  step : Step S
  deriving Repr, Inhabited

namespace Repeater

/-- The most copies, and the most steps of a copy in either direction. -/
def most : Nat := 1000

/-- The number of copies: the fraction of a count is cut off, and a count below zero is none. -/
def wholeCount (count : S) : Nat := (Scalar.truncateInto 0 most (Scalar.max count 0)).toNat

/-- The number of copies. -/
def count (repeater : Repeater S) : Nat := wholeCount repeater.copies.value

/-- The repeater with the opacities of its copies. -/
def faded (repeater : Repeater S) : Repeater S :=
  { repeater with step := repeater.step.fadeOver repeater.count }

/-- The repeater that a document describes. -/
def ofDocument (authored : Document.Repeater S) : Repeater S :=
  faded
    { copies := amount 1 authored.copies
      offset := amount 0 authored.offset
      composite := Composite.ofCode authored.composite
      step := Step.ofDocument authored.step }

/-- The repeater brought to a time. -/
def update (repeater : Repeater S) (time : S) : Repeater S :=
  faded
    { repeater with
      copies := repeater.copies.update time
      offset := repeater.offset.update time
      step := repeater.step.update time }

/-- An integer moved into the range of steps. -/
def withinMost (steps : Int) : Int := max (-most) (min most steps)

/-- The steps of the first copy: the nearest integer to the offset. -/
def wholeOffset (offset : S) : Int :=
  let bound : S := Scalar.ofNat most
  Scalar.truncateInto (-most) most (Scalar.round (Scalar.clamp offset (-bound) bound))

/-- How many steps a copy is away; steps below zero go backwards. -/
def stepsOf (repeater : Repeater S) (index : Nat) : Int :=
  withinMost (min index most + wholeOffset repeater.offset.value)

/-- So many steps forward or backward. -/
def stepped (step : Matrix3 S) (steps : Int) : Matrix3 S :=
  (if steps < 0 then step.inverse else step).power steps.natAbs

/-- Where a copy is drawn. -/
def placeOf (repeater : Repeater S) (index : Nat) : Affine P :=
  Affine.ofMatrix (stepped repeater.step.matrix (repeater.stepsOf index))

/-- Place and opacity of every copy, in the order in which they are drawn. -/
def instances (repeater : Repeater S) : List (Affine P × S) :=
  let copies := (List.range repeater.count).map fun index =>
    (repeater.placeOf index, repeater.step.opacityAt index)
  match repeater.composite with
  | .above => copies
  | .below => copies.reverse

end Repeater

end VectorMotion.Scene
