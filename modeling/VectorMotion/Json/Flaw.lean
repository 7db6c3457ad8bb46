import VectorMotion.Json.Token

/-!
# Flaws of JSON text

Where a text stops being JSON, something was due and something else came, or nothing. That is the
flaw, and it is kept as such, because the fault it amounts to depends on the reader. Most readers
look at the whole of a token: one that is cut off by the end of the text is *truncated*, all else
is *malformed*. A reader that passes over a value looks at its outline only: to it a number that
lacks a digit is malformed even at the end of the text, and a string that is left open is truncated
whatever it holds.
-/

namespace VectorMotion.Json

/-- Why JSON text is not JSON. -/
inductive TextFault where
  /-- A character stands where none or another may stand. -/
  | malformed
  /-- The text ends within a value. -/
  | truncated
  deriving Repr, DecidableEq, Inhabited

/-- What may stand next in a text. -/
inductive Due where
  | value
  /-- The first item of a list, or its end. -/
  | itemOrEnd
  /-- A comma or the end of a list. -/
  | commaOrEnd
  /-- The first name of an object, or its end. -/
  | nameOrEnd
  | name
  | colon
  /-- A comma or the end of an object. -/
  | commaOrObjectEnd
  deriving Repr, DecidableEq, Inhabited

namespace Due

/-- Whether a value may begin here. -/
def takesValue : Due → Bool
  | value | itemOrEnd => true
  | commaOrEnd | nameOrEnd | name | colon | commaOrObjectEnd => false

/-- Whether a string may begin here, as a value or as a name. -/
def takesText : Due → Bool
  | value | itemOrEnd | nameOrEnd | name => true
  | commaOrEnd | colon | commaOrObjectEnd => false

end Due

/-- What was due where a text stops being JSON, and the token that came; none if the text ended
before any. -/
structure Flaw where
  due : Due
  found : Option Token
  deriving Repr, Inhabited

namespace Flaw

/-- Chooses between the two faults. -/
def faultIf (truncated : Bool) : TextFault := if truncated then .truncated else .malformed

/-- The fault that a flaw is to one who reads the value. A token that may not stand where it does
is malformed by its first character, so it does not matter how it goes on. A half of a surrogate
pair that stands alone in a string is met before the end of the text. -/
def whenRead (flaw : Flaw) : TextFault :=
  match flaw.found with
  | none => .truncated
  | some (.cutWord _) | some .cutNumber => faultIf flaw.due.takesValue
  | some (.cutText unpaired) => faultIf (flaw.due.takesText && !unpaired)
  | some _ => .malformed

/-- The fault that a flaw is to one who passes over the value. -/
def whenSkipped (flaw : Flaw) : TextFault :=
  match flaw.found with
  | none => .truncated
  | some (.cutWord _) => faultIf flaw.due.takesValue
  | some (.cutText _) => faultIf flaw.due.takesText
  | some _ => .malformed

/-- The fault that a flaw is to one who expects a string or an object: nothing else can begin
there. -/
def whenNamed (flaw : Flaw) : TextFault :=
  match flaw.found with
  | some (.cutWord _) | some .cutNumber => .malformed
  | _ => flaw.whenRead

/-- Whether the text ends within the word `null` where a value is due. -/
def cutsNull (flaw : Flaw) : Bool :=
  match flaw.found with
  | some (.cutWord .null) => flaw.due.takesValue
  | _ => false

end Flaw

end VectorMotion.Json
