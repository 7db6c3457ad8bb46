import VectorMotion.Json.Source
import VectorMotion.Decimal.Text
import VectorMotion.Text.Quoted

/-!
# Misfits

Why a JSON document does not fit the shape it is read as. A `Misfit` is the cause; its wording is
in one place, `Misfit.message`. A fault of the text itself is a cause without wording.
-/

namespace VectorMotion.Json

/-- What stands in a document where something else was expected. -/
inductive Found where
  | atom (value : Atom)
  | sequence
  | map
  deriving Repr, Inhabited

/-- Why a source cannot be read. -/
inductive Misfit where
  /-- The text is no JSON. -/
  | fault (cause : TextFault)
  /-- A value of the wrong kind. -/
  | wrongKind (found : Found) (expected : String)
  /-- A value of the right kind that is out of range. -/
  | outOfRange (found : Found) (expected : String)
  /-- A list with the wrong number of items. -/
  | wrongLength (length : Nat) (expected : String)
  | missingField (name : String)
  | duplicateField (name : String)
  | unknownVariant (name : String) (variants : List String)
  /-- The value has none of the forms of a position. -/
  | noPosition
  /-- The value has none of the forms of an easing handle. -/
  | noHandle
  deriving Repr, Inhabited

namespace Found

/-- The wording of what was found. -/
def description : Found → String
  | .atom .null => "null"
  | .atom (.boolean value) => s!"boolean `{value}`"
  | .atom (.number (.natural value)) => s!"integer `{value}`"
  | .atom (.number (.negative size)) => s!"integer `-{size}`"
  | .atom (.number (.fraction value)) => "floating point `" ++ Decimal.literal value ++ "`"
  | .atom (.text value) => "string " ++ Text.quoted value
  | .sequence => "sequence"
  | .map => "map"

end Found

namespace Misfit

/-- Names of variants in quotes, for a sentence. -/
def alternatives : List String → String
  | [] => "there are no variants"
  | [name] => s!"expected `{name}`"
  | [first, second] => s!"expected `{first}` or `{second}`"
  | names => "expected one of " ++ ", ".intercalate (names.map fun name => s!"`{name}`")

/-- The wording of a misfit; a fault of the text has none. -/
def message : Misfit → String
  | .fault _ => ""
  | .wrongKind found expected => s!"invalid type: {found.description}, expected {expected}"
  | .outOfRange found expected => s!"invalid value: {found.description}, expected {expected}"
  | .wrongLength length expected => s!"invalid length {length}, expected {expected}"
  | .missingField name => s!"missing field `{name}`"
  | .duplicateField name => s!"duplicate field `{name}`"
  | .unknownVariant name variants => s!"unknown variant `{name}`, {alternatives variants}"
  | .noPosition => "data did not match any variant of untagged enum PositionProperty"
  | .noHandle => "expected an easing handle"

end Misfit

/-- The outcome of decoding. -/
abbrev Decoded (α : Type) := Except Misfit α

end VectorMotion.Json
