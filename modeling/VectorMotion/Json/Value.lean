import VectorMotion.Scalar

/-!
# JSON values

The values of JSON, in the normal form that a document fragment is kept in: the members of an
object stand in ascending order of their names and no name occurs twice. `Value.ofMembers`
brings any list of members into that form; of members with one name the last counts.

A number is a natural or a negative integer of at most 64 bits, or else a double precision
number. The distinction can be seen: `4` is an integer and `4.0` is not.
-/

namespace VectorMotion.Json

/-- A number as it stands in a document. `negative n` is the integer `-n`. -/
inductive Number where
  | natural (value : Nat)
  | negative (size : Nat)
  | fraction (value : Float)
  deriving Repr, Inhabited

namespace Number

/-- The number in double precision. -/
def toDouble : Number → Float
  | natural value => Float.ofNat value
  | negative size => -(Float.ofNat size)
  | fraction value => value

/-- The number as a scalar. Integers are rounded once; a fraction is narrowed from double
precision and may become infinite. -/
def toScalar {S : Type} [Scalar S] : Number → S
  | natural value => Scalar.ofNat value
  | negative size => -(Scalar.ofNat size)
  | fraction value => Scalar.ofDouble value

end Number

/-- A value without parts. -/
inductive Atom where
  | null
  | boolean (value : Bool)
  | number (value : Number)
  | text (value : String)
  deriving Repr, Inhabited

/-- A JSON value. -/
inductive Value where
  | atom (value : Atom)
  | list (items : List Value)
  | object (members : List (String × Value))
  deriving Repr, Inhabited

namespace Value

/-- The value `null`. -/
def null : Value := .atom .null

/-- A natural number. -/
def natural (value : Nat) : Value := .atom (.number (.natural value))

/-- A number that is no integer. -/
def fraction (value : Float) : Value := .atom (.number (.fraction value))

/-- A string. -/
def text (value : String) : Value := .atom (.text value)

/-- A boolean. -/
def boolean (value : Bool) : Value := .atom (.boolean value)

/-- Whether the value is `null`. -/
def isNull : Value → Bool
  | .atom .null => true
  | _ => false

/-- The string, of a value that is one. -/
def text? : Value → Option String
  | .atom (.text value) => some value
  | _ => none

/-- The items, of a value that is a list. -/
def items? : Value → Option (List Value)
  | .list items => some items
  | _ => none

/-- The members, of a value that is an object. -/
def members? : Value → Option (List (String × Value))
  | .object members => some members
  | _ => none

/-- The member of an object with the given name. -/
def member? (value : Value) (name : String) : Option Value :=
  value.members?.bind (·.lookup name)

/-- Puts a member at its place among ordered members, over one with the same name. -/
def insertMember (name : String) (value : Value) :
    List (String × Value) → List (String × Value)
  | [] => [(name, value)]
  | (other, old) :: rest =>
    if name < other then (name, value) :: (other, old) :: rest
    else if name == other then (name, value) :: rest
    else (other, old) :: insertMember name value rest

/-- The object with these members, given in any order. -/
def ofMembers (members : List (String × Value)) : Value :=
  .object (members.foldl (fun ordered entry => insertMember entry.1 entry.2 ordered) [])

end Value

end VectorMotion.Json
