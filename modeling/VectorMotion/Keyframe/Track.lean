import VectorMotion.Document.Property
import VectorMotion.Keyframe.Blend
import VectorMotion.Keyframe.Easing

/-!
# Tracks

An attribute over time. A track is made from a property of a document: keyframes become spans of
time, each with the values at its two ends and the way from one to the other, and the last
keyframe becomes a span that holds its value for ever. A track also keeps the value at the time
it was last brought to.

A keyframe that leaves its value out goes on from the value that the span before it ends at.
-/

namespace VectorMotion

open Document

/-- The time from one keyframe to the next. -/
structure Span (S V : Type) where
  startTime : S
  endTime : S
  start : V
  finish : V
  easeOut : Vec2 S
  easeIn : Vec2 S
  hold : Bool
  tangentOut : Vec2 S
  tangentIn : Vec2 S
  deriving Repr, Inhabited

namespace Span

variable {S V : Type} [Scalar S] [Blend S V]

/-- The value at a time within the span or after it. With `curved`, points follow their
tangents. -/
def valueAt (span : Span S V) (curved : Bool) (time : S) : V :=
  if span.hold then span.start
  else
    let duration := span.endTime - span.startTime
    if span.endTime ≤ time || duration ≤ 0 then span.finish
    else
      let passed := Scalar.clamp ((time - span.startTime) / duration) 0 1
      let way := Easing.ease span.easeOut span.easeIn passed
      if curved then Blend.mixAlong span.start span.finish way span.tangentOut span.tangentIn
      else Blend.mix span.start span.finish way

/-- A span that keeps a value from a time on. -/
def still (time : S) (value : V) : Span S V :=
  { startTime := time, endTime := time, start := value, finish := value, easeOut := Vec2.zero,
    easeIn := Vec2.both 1, hold := true, tangentOut := Vec2.zero, tangentIn := Vec2.zero }

/-- A control point of the easing curve. -/
def control (handle : Option (Handle S)) (default : Vec2 S) : Vec2 S :=
  match handle with
  | some handle => ⟨handle.x, handle.y⟩
  | none => default

/-- A tangent: the first two numbers, or none. -/
def tangent : Option (List S) → Vec2 S
  | some (x :: y :: _) => ⟨x, y⟩
  | _ => Vec2.zero

/-- Whether a span bends. -/
def bends (span : Span S V) : Bool :=
  !(span.tangentOut == Vec2.zero) || !(span.tangentIn == Vec2.zero)

end Span

/-- An attribute over time, with its value at the time it was last brought to. -/
structure Track (S V : Type) where
  /-- The spans in the order of their keyframes. A fixed attribute has none. -/
  spans : Array (Span S V)
  value : V
  /-- Whether any span bends. If one does, all of them follow their tangents. -/
  curved : Bool
  deriving Repr, Inhabited

namespace Track

variable {S V W : Type} [Scalar S] [Blend S V]

/-- An attribute that does not change. -/
def fixed (value : V) : Track S V := ⟨#[], value, false⟩

/-- The spans of keyframes. `previous` is the value that the span before them ends at, and the
default where there is none. -/
def spansFrom (convert : W → V) : V → List (Keyframe S W) → List (Span S V)
  | _, [] => []
  | previous, [last] => [Span.still last.time ((last.start.map convert).getD previous)]
  | previous, key :: next :: rest =>
    let start := (key.start.map convert).getD previous
    let finish := ((key.finish.or next.start).map convert).getD start
    { startTime := key.time
      endTime := next.time
      start
      finish
      easeOut := Span.control key.easeOut Vec2.zero
      easeIn := Span.control key.easeIn (Vec2.both 1)
      hold := key.hold
      tangentOut := Span.tangent key.tangentOut
      tangentIn := Span.tangent key.tangentIn } :: spansFrom convert finish (next :: rest)

/-- The attribute with these keyframes. It starts at the value of the first. -/
def ofKeyframes (convert : W → V) (default : V) (keys : List (Keyframe S W)) : Track S V :=
  let spans := spansFrom convert default keys
  match spans with
  | [] => fixed default
  | first :: _ => ⟨spans.toArray, first.start, spans.any Span.bends⟩

/-- The attribute that a property describes. -/
def ofProperty (convert : W → V) (default : V) (property : Property S W) : Track S V :=
  match property.content with
  | .absent => fixed default
  | .fixed value => fixed (convert value)
  | .keyed keys => ofKeyframes convert default keys

/-- Whether the attribute changes with time. -/
def animated (track : Track S V) : Bool := !track.spans.isEmpty

/-- Whether there is a span at an index and it has started by a time. -/
def startsBy (spans : Array (Span S V)) (time : S) (index : Nat) : Bool :=
  match spans[index]? with
  | some span => span.startTime ≤ time
  | none => false

/-- Halves the range of `size` spans from `base` until one is left, and goes into the upper half
whenever its first span has started by the time. The base only moves to a span that has
started. -/
def search (spans : Array (Span S V)) (time : S) (base size : Nat) : Nat :=
  if size ≤ 1 then base
  else
    let half := size / 2
    if startsBy spans time (base + half) then search spans time (base + half) (size - half)
    else search spans time base (size - half)
termination_by size
decreasing_by all_goals omega

/-- The span that a time falls into: the last one that has started, for keyframes in order. -/
def spanAt? (track : Track S V) (time : S) : Option (Span S V) :=
  let index := search track.spans time 0 track.spans.size
  if startsBy track.spans time index then track.spans[index]? else none

/-- The value at a time. Before the first keyframe it is the value there. -/
def valueAt (track : Track S V) (time : S) : V :=
  match track.spanAt? time with
  | some span => span.valueAt track.curved time
  | none =>
    match track.spans[0]? with
    | some first => first.start
    | none => track.value

/-- The attribute brought to a time. -/
def update (track : Track S V) (time : S) : Track S V :=
  if track.animated then { track with value := track.valueAt time } else track

end Track

end VectorMotion
