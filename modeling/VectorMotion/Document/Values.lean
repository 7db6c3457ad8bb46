import VectorMotion.Json.Decode
import VectorMotion.Geometry.Vector

/-!
# Authored values

The kinds of value that a property of a document holds besides a plain number: points, colours and
vertex lists.
-/

namespace VectorMotion.Document

open Json

variable {S : Type} [Scalar S]

/-- A point of space. The third component is kept but nothing is drawn with it. -/
structure Triple (S : Type) where
  x : S
  y : S
  z : S
  deriving Repr, Inhabited

namespace Triple

/-- Reads a list of numbers; `missing` stands for components that are left out, and components
after the third are read and dropped. -/
def decode (missing : S) : Decoder (Triple S) := fun source => do
  let components ← Decoder.sequence "a sequence of 2 or 3 floats" Decoder.scalar source
  return ⟨components.getD 0 missing, components.getD 1 missing, components.getD 2 missing⟩

/-- A point: what is left out is zero. -/
def decodePoint : Decoder (Triple S) := decode 0

/-- Scale factors in percent: what is left out is a hundred. -/
def decodeFactors : Decoder (Triple S) := decode 100

/-- The point in the plane. -/
def plane (point : Triple S) : Vec2 S := ⟨point.x, point.y⟩

end Triple

/-- Reads a colour as a list of numbers, of which three are needed. One without opacity is opaque,
and components after the fourth are read and dropped. -/
def decodeColor : Decoder (Rgba S) := fun source => do
  let expected := "a sequence of 3 or 4 floats"
  match ← Decoder.sequence expected Decoder.scalar source with
  | [red, green, blue] => return ⟨red, green, blue, 1⟩
  | red :: green :: blue :: alpha :: _ => return ⟨red, green, blue, alpha⟩
  | components => .error (.wrongLength components.length expected)

/-- The outline of a free-form shape: its vertices, and for each the tangents of the curve that
arrives there and the one that leaves. Tangents are relative to their vertex. The three lists
need not have the same length. -/
structure Vertices (S : Type) where
  closed : Bool := false
  arriving : List (Vec2 S) := []
  leaving : List (Vec2 S) := []
  points : List (Vec2 S) := []
  deriving Repr, Inhabited

namespace Vertices

/-- Reads pairs of numbers. -/
def decodePoints : Decoder (List (Vec2 S)) :=
  Decoder.list (Decoder.pair Decoder.scalar Vec2.mk)

/-- The fields of a vertex list. -/
def fields : List (Record.Field (Vertices S)) :=
  [ .of "c" Decoder.switch fun closed record => { record with closed },
    .of "i" decodePoints fun arriving record => { record with arriving },
    .of "o" decodePoints fun leaving record => { record with leaving },
    .of "v" decodePoints fun points record => { record with points } ]

/-- Reads a vertex list. -/
def decode : Decoder (Vertices S) := Record.decode "BezierPath" {} fields

end Vertices

end VectorMotion.Document
