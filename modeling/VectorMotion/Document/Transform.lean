import VectorMotion.Document.Property

/-!
# Authored transforms

Position, scale, rotation and opacity of a layer, a group or the step of a repeater.
-/

namespace VectorMotion.Document

open Json

variable {S : Type} [Scalar S]

/-- A position is one property of points or two of numbers. -/
inductive Position (S : Type) where
  | unified (point : Point S)
  | split (x y : Amount S)
  deriving Repr, Inhabited

namespace Position

/-- The two halves of a split position, as they are read. -/
structure Halves (S : Type) where
  x : Amount S := {}
  y : Amount S := {}

/-- The fields of a split position. -/
def halves : List (Record.Field (Halves S)) :=
  [ .must "x" Amount.decode fun x record => { record with x },
    .must "y" Amount.decode fun y record => { record with y } ]

/-- Reads a split position, which is an object with both halves. -/
def decodeSplit : Decoder (Position S)
  | .object _ members _ => do
    let (seen, read) ← Record.readMembers (halves (S := S)) [] members {}
    Record.requireAll (halves (S := S)) seen
    return .split read.x read.y
  | _ => .error .noPosition

/-- Reads a position. The split form is tried first, for an object with halves would also pass
for a property whose fields are all left out. -/
def decode : Decoder (Position S) := fun source => do
  let kept ← source.keep
  match decodeSplit kept with
  | .ok position => return position
  | .error _ =>
    match Point.decode kept with
    | .ok point => return .unified point
    | .error _ => .error .noPosition

end Position

/-- A transform. Scale and opacity are in percent, angles in degrees. -/
structure Transform (S : Type) where
  anchor : Point S := {}
  position : Position S := .unified {}
  scale : Point S := {}
  rotation : Amount S := {}
  opacity : Amount S := {}
  skew : Amount S := {}
  skewAxis : Amount S := {}
  deriving Repr, Inhabited

namespace Transform

/-- Reads the rotation, which has a second name. -/
def rotationField : Record.Field (Transform S) :=
  { (Record.Field.of "r" Amount.decode fun rotation record => { record with rotation }) with
    aliases := ["rz"] }

/-- The fields of a transform. -/
def fields : List (Record.Field (Transform S)) :=
  [ .of "a" Point.decode fun anchor record => { record with anchor },
    .of "p" Position.decode fun position record => { record with position },
    .of "s" Point.decodeFactors fun scale record => { record with scale },
    rotationField,
    .of "o" Amount.decode fun opacity record => { record with opacity },
    .of "sk" Amount.decode fun skew record => { record with skew },
    .of "sa" Amount.decode fun skewAxis record => { record with skewAxis } ]

/-- Reads a transform. -/
def decode : Decoder (Transform S) := Record.decode "Transform" {} fields

end Transform

/-- The step of a repeater: a transform and the opacities of the first and the last copy. -/
structure Step (S : Type) where
  transform : Transform S := {}
  startOpacity : Amount S := {}
  endOpacity : Amount S := {}
  deriving Repr, Inhabited

namespace Step

/-- The fields of a step besides those of its transform. -/
def fields : List (Record.Field (Step S)) :=
  [ .of "so" Amount.decode fun startOpacity record => { record with startOpacity },
    .of "eo" Amount.decode fun endOpacity record => { record with endOpacity } ]

/-- Reads the members of a step in order. Those that may belong to the transform are set aside. -/
def readMembers : List String → List (Option String × Source) → Step S →
    Decoded (List (Option String × Source) × Step S)
  | _, [], step => .ok ([], step)
  | seen, (name, item) :: rest, step => do
    let name ← nameOf name
    match fields.find? (·.goesBy name) with
    | none => do
      let kept ← item.keep
      let (members, step) ← readMembers seen rest step
      return ((some name, kept) :: members, step)
    | some field =>
      if seen.contains field.name then .error (.duplicateField field.name)
      else do
        let put ← field.read item
        readMembers (field.name :: seen) rest (put step)

/-- Reads a step. Its transform shares the object with its own fields and is read last. -/
def decode : Decoder (Step S)
  | .object origin members flaw => do
    origin.enter
    let (members, step) ← readMembers [] members {}
    leave flaw
    let transform ← Transform.decode (.object .kept members none)
    return { step with transform }
  | source => .error (source.misfit "struct RepeaterTransform")

end Step

end VectorMotion.Document
