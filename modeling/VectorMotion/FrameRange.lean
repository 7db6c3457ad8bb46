import VectorMotion.Scene

/-!
# Frame ranges

The frames of a document that are exported: the whole frames from its in point up to but not
including its out point, and always at least the first. A user may ask for a part of them.

Frames are numbered in 32 bits. The number before the least one is the greatest, so a document
whose out point is below every number has no last frame to speak of.
-/

namespace VectorMotion

/-- Frames from the first to the last, both included. -/
structure FrameRange where
  first : Int
  last : Int
  deriving Repr, DecidableEq, Inhabited

/-- A range without a frame. -/
structure EmptyRange where
  first : Int
  last : Int
  deriving Repr, DecidableEq, Inhabited

/-- What is said about a range without a frame. -/
def EmptyRange.message (empty : EmptyRange) : String :=
  s!"Empty frame range {empty.first}..={empty.last}"

namespace FrameRange

variable {S : Type} [Scalar S]

/-- The least frame number. -/
def least : Int := -2147483648

/-- The greatest frame number. -/
def greatest : Int := 2147483647

/-- The first whole frame that is not before a time. -/
def number (time : S) : Int := Scalar.truncateInto least greatest (Scalar.ceil time)

/-- The frame before a frame. -/
def before (frame : Int) : Int := if frame == least then greatest else frame - 1

/-- All frames of a document. -/
def ofInfo (info : Scene.Info S) : FrameRange :=
  let first := number info.inPoint
  ⟨first, max (before (number info.outPoint)) first⟩

/-- The frames of a range that a user asks for. -/
def clip (range : FrameRange) (first last : Option Int) : Except EmptyRange FrameRange :=
  let first := max (first.getD range.first) range.first
  let last := min (last.getD range.last) range.last
  if last < first then .error ⟨first, last⟩ else .ok ⟨first, last⟩

/-- The frames in order. -/
def frames (range : FrameRange) : List Int :=
  (List.range (range.last + 1 - range.first).toNat).map fun (index : Nat) => range.first + index

end FrameRange

end VectorMotion
