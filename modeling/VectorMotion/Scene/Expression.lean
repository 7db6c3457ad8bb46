import VectorMotion.Scene.Node
import VectorMotion.Text.Blank

/-!
# Expressions

A property may carry a program that would compute it. One kind of program is understood:
`effect("A")("B")` stands for the value of the slider `B` on the effect `A`. Before a layer is
read, every object with such an expression is replaced by what has been authored for the slider.
Any other expression, and one that refers to nothing, leaves its object as it is.
-/

namespace VectorMotion.Scene

/-- A reference to a slider: the names of an effect and of a control on it. -/
structure Reference where
  effect : String
  control : String
  deriving Repr, DecidableEq, Inhabited

namespace Reference

/-- What stands behind a word at the start of a text. -/
def behind? : List Char → List Char → Option (List Char)
  | [], text => some text
  | _ :: _, [] => none
  | c :: word, d :: text => if c == d then behind? word text else none

/-- Whether a character can quote a name. -/
def isQuote (c : Char) : Bool := c == '\x27' || c == '\x22'

/-- The name in quotes at the start of a text, and what stands behind it. Both quotes are the same
character. -/
def quoted? : List Char → Option (List Char × List Char)
  | [] => none
  | quote :: text =>
    if isQuote quote then
      match text.dropWhile (· != quote) with
      | [] => none
      | _ :: rest => some (text.takeWhile (· != quote), rest)
    else none

/-- A text without a semicolon at its end. -/
def withoutSemicolon (text : List Char) : List Char :=
  match text.reverse with
  | ';' :: rest => rest.reverse
  | _ => text

/-- An expression without the blanks around it and the semicolon at its end. -/
def core (text : List Char) : List Char := Text.stripEnd (withoutSemicolon (Text.strip text))

/-- The reference that an expression is, if it is one. -/
def ofText? (text : String) : Option Reference := do
  let rest ← behind? "effect(".toList (core text.toList)
  let (effect, rest) ← quoted? rest
  let rest ← behind? ")(".toList rest
  let (control, rest) ← quoted? rest
  if rest == [')'] then some ⟨String.ofList effect, String.ofList control⟩ else none

end Reference

namespace Expression

open Json

variable {S P : Type}

/-- The authored value of the slider that a reference means. Both names are those of the first
node that bears them, whatever it is. -/
def authored? (root : Node S P) (reference : Reference) : Option Value := do
  let effect ← root.find? reference.effect
  let control ← effect.find? reference.control
  match control.kind with
  | .slider slider => some slider.authored
  | _ => none

/-- A value that is put in place of an expression says so, if it is an object. -/
def marked : Value → Value
  | .object members => .object (Value.insertMember "fromExpression" (Value.boolean true) members)
  | value => value

/-- What an object with these members is replaced by. -/
def replacement? (root : Node S P) (members : List (String × Value)) : Option Value := do
  let text ← (← members.lookup "x").text?
  let reference ← Reference.ofText? text
  return marked (← authored? root reference)

/-- The member under which the effects of a layer are defined. They are what expressions refer to,
and have none themselves. -/
def effectsMember : String := "ef"

mutual
/-- A value with its expressions replaced. -/
def resolve (root : Node S P) : Value → Value
  | .atom value => .atom value
  | .list items => .list (resolveItems root items)
  | .object members =>
    match replacement? root members with
    | some value => value
    | none => .object (resolveMembers root members)

/-- Items with their expressions replaced. -/
def resolveItems (root : Node S P) : List Value → List Value
  | [] => []
  | item :: rest => resolve root item :: resolveItems root rest

/-- Members with their expressions replaced. -/
def resolveMembers (root : Node S P) : List (String × Value) → List (String × Value)
  | [] => []
  | (name, value) :: rest =>
    (name, if name == effectsMember then value else resolve root value) ::
      resolveMembers root rest
end

end Expression

end VectorMotion.Scene
