import VectorMotion.Json.Value

/-!
# JSON tokens

The lexical level of JSON text. The text is read one character at a time by a machine whose state
says which token stands open; a token that no character can continue ends before the character
that follows it. Reading stops at the first character that no token can take.

Some tokens are whole but have no value: a number beyond the greatest double precision number and
a string that escapes half of a surrogate pair. They are tokens all the same, because a value that
nobody asks for may be one of them. For the same reason a token that the end of the text cuts off
says what it was: not every reader finds the same fault with it.
-/

namespace VectorMotion.Json

/-- A token of JSON text. -/
inductive Token where
  | openList
  | closeList
  | openObject
  | closeObject
  | colon
  | comma
  | atom (value : Atom)
  /-- A number that is beyond the greatest one. -/
  | boundless
  /-- A string with a half of a surrogate pair that stands alone. -/
  | unpaired
  /-- A word that the end of the text cuts off, by its value. -/
  | cutWord (value : Atom)
  /-- A number that the end of the text cuts off: a digit is due. -/
  | cutNumber
  /-- A string that the end of the text leaves open. `unpaired` tells whether half of a surrogate
  pair stood alone in it. -/
  | cutText (unpaired : Bool)
  /-- A character that no token can take. -/
  | malformed
  deriving Repr, Inhabited

/-- What one more character does to a token of the form `α` that stands open. -/
inductive Reading (α : Type) where
  /-- The token takes the character and stays open. -/
  | more (token : α)
  /-- The token has ended: a number before the character, a string with it. -/
  | ended
  /-- The token cannot take the character, nor end there. -/
  | malformed
  deriving Repr

namespace Token

/-- How far a number has been read. -/
inductive NumberPart where
  | sign
  | zero
  | whole
  | point
  | places
  | exponent
  | exponentSign
  | exponentDigits
  deriving Repr, DecidableEq

/-- A number that stands open. The digits before and behind the point are collected in one
natural for as long as it fits 64 bits; `shift` is the power of ten it is to be multiplied by.
Once a digit did not fit, `full` holds until the point: further digits before the point only raise
the shift. Behind the point it holds again from the first digit that does not fit, and that digit
and all after it are dropped. -/
structure OpenNumber where
  part : NumberPart
  negative : Bool := false
  significand : Nat := 0
  full : Bool := false
  shift : Int := 0
  exponentNegative : Bool := false
  exponent : Nat := 0
  deriving Repr

/-- The greatest natural that is kept as an integer. -/
def greatestNatural : Nat := 18446744073709551615

/-- The greatest exponent that is read digit by digit; a larger one is out of any range. -/
def greatestExponent : Nat := 2147483647

/-- Powers of ten that are exact enough to scale a significand by in one step. -/
def greatestPower : Nat := 308

/-- Scales a significand by a power of ten, in one division or multiplication where the power is
within range and in steps of the greatest power below it. There is no value above the greatest
number. -/
def scaled : Nat → Float → Int → Option Float
  | 0, value, _ => some value
  | steps + 1, value, shift =>
    if shift.natAbs ≤ greatestPower then
      let power := Float.ofScientific 1 false shift.natAbs
      if 0 ≤ shift then
        let product := value * power
        if product.isInf then none else some product
      else some (value / power)
    else if value == 0.0 then some value
    else if 0 ≤ shift then none
    else scaled steps (value / Float.ofScientific 1 false greatestPower) (shift + greatestPower)

/-- Steps after which any significand has been scaled down to zero. -/
def scalingSteps : Nat := 4

namespace OpenNumber

/-- A digit before the point. -/
def addWhole (number : OpenNumber) (digit : Nat) : OpenNumber :=
  let significand := number.significand * 10 + digit
  if number.full || greatestNatural < significand then
    { number with full := true, shift := number.shift + 1 }
  else { number with significand }

/-- A digit behind the point. -/
def addPlace (number : OpenNumber) (digit : Nat) : OpenNumber :=
  let significand := number.significand * 10 + digit
  if number.full || greatestNatural < significand then { number with full := true }
  else { number with significand, shift := number.shift - 1 }

/-- A digit of the exponent. -/
def addExponent (number : OpenNumber) (digit : Nat) : OpenNumber :=
  { number with exponent := min (number.exponent * 10 + digit) (greatestExponent + 1) }

/-- The value of a number with a fraction or an exponent. -/
def fraction (number : OpenNumber) : Option Float :=
  let size :=
    if greatestExponent < number.exponent then
      if number.significand != 0 && !number.exponentNegative then none else some 0.0
    else
      let exponent : Int := if number.exponentNegative then -number.exponent else number.exponent
      scaled scalingSteps (Float.ofNat number.significand) (number.shift + exponent)
  size.map fun size => if number.negative then -size else size

/-- The token of a number that no more characters continue, as at the end of the text. A whole
number of at most 64 bits is an integer, save that minus zero and integers below the least one are
not. -/
def close (number : OpenNumber) : Token :=
  let valued (value : Option Float) : Token :=
    match value with
    | some value => .atom (.number (.fraction value))
    | none => .boundless
  match number.part with
  | .zero | .whole =>
    if number.full then valued number.fraction
    else if !number.negative then .atom (.number (.natural number.significand))
    else if number.significand == 0 || 9223372036854775808 < number.significand then
      .atom (.number (.fraction (-(Float.ofNat number.significand))))
    else .atom (.number (.negative number.significand))
  | .places | .exponentDigits => valued number.fraction
  | .sign | .point | .exponent | .exponentSign => .cutNumber

/-- Reads one more character. -/
def step (number : OpenNumber) (c : Char) : Reading OpenNumber :=
  let digit := c.toNat - '0'.toNat
  let startExponent := .more { number with part := .exponent }
  match number.part with
  | .sign =>
    if c == '0' then .more { number with part := .zero }
    else if c.isDigit then .more ({ number with part := .whole }.addWhole digit)
    else .malformed
  | .zero =>
    if c == '.' then .more { number with part := .point }
    else if c == 'e' || c == 'E' then startExponent
    else if c.isDigit then .malformed
    else .ended
  | .whole =>
    if c == '.' then .more { number with part := .point, full := false }
    else if c == 'e' || c == 'E' then startExponent
    else if c.isDigit then .more (number.addWhole digit)
    else .ended
  | .point =>
    if c.isDigit then .more ({ number with part := .places }.addPlace digit)
    else .malformed
  | .places =>
    if c == 'e' || c == 'E' then startExponent
    else if c.isDigit then .more (number.addPlace digit)
    else .ended
  | .exponent =>
    if c == '+' then .more { number with part := .exponentSign }
    else if c == '-' then
      .more { number with part := .exponentSign, exponentNegative := true }
    else if c.isDigit then .more ({ number with part := .exponentDigits }.addExponent digit)
    else .malformed
  | .exponentSign =>
    if c.isDigit then .more ({ number with part := .exponentDigits }.addExponent digit)
    else .malformed
  | .exponentDigits =>
    if c.isDigit then .more (number.addExponent digit) else .ended

end OpenNumber

/-- How far an escape within a string has been read. -/
inductive EscapePart where
  | none
  | backslash
  /-- A code unit, of which some hexadecimal digits have been read. -/
  | unit (bytes : Nat) (value : Option Nat)
  /-- The first half of a surrogate pair; the second half is due. -/
  | half (first : Nat)
  /-- A first half and a backslash. -/
  | halfBackslash (first : Nat)
  /-- A first half and the digits of the second. -/
  | halfUnit (first : Nat) (bytes : Nat) (value : Option Nat)
  deriving Repr

/-- A string that stands open, with its characters in reverse. -/
structure OpenText where
  characters : List Char := []
  escape : EscapePart := .none
  /-- A surrogate stood alone, so the string has no value. -/
  unpaired : Bool := false
  deriving Repr

/-- The value of a hexadecimal digit. -/
def hexadecimal? (c : Char) : Option Nat :=
  if c.isDigit then some (c.toNat - '0'.toNat)
  else if 'a' ≤ c && c ≤ 'f' then some (c.toNat - 'a'.toNat + 10)
  else if 'A' ≤ c && c ≤ 'F' then some (c.toNat - 'A'.toNat + 10)
  else none

/-- The character after a backslash that a two-character escape stands for. -/
def escaped? : Char → Option Char
  | '"' => some '"'
  | '\\' => some '\\'
  | '/' => some '/'
  | 'b' => some '\x08'
  | 'f' => some '\x0c'
  | 'n' => some '\n'
  | 'r' => some '\r'
  | 't' => some '\t'
  | _ => none

namespace OpenText

/-- One more character of the string. -/
def add (text : OpenText) (c : Char) : OpenText :=
  { text with characters := c :: text.characters, escape := .none }

/-- Four bytes of an escape have been read: the unit they name, if they are digits. -/
def endUnit (text : OpenText) : Option Nat → Reading OpenText
  | none => .malformed
  | some unit =>
    if 0xD800 ≤ unit && unit < 0xDC00 then .more { text with escape := .half unit }
    else if 0xDC00 ≤ unit && unit < 0xE000 then
      .more { text with escape := .none, unpaired := true }
    else .more (text.add (Char.ofNat unit))

/-- Four bytes of the second half of a pair have been read. -/
def endPair (text : OpenText) (first : Nat) : Option Nat → Reading OpenText
  | none => .malformed
  | some unit =>
    if 0xDC00 ≤ unit && unit < 0xE000 then
      .more (text.add (Char.ofNat (0x10000 + (first - 0xD800) * 0x400 + (unit - 0xDC00))))
    else .more { text with escape := .none, unpaired := true }

/-- One character of a code unit. An escape takes the next four bytes, whatever they are, before
it looks at them. -/
def unitStep (bytes : Nat) (value : Option Nat) (c : Char) : Nat × Option Nat :=
  (bytes + c.utf8Size, value.bind fun value => (hexadecimal? c).map (value * 16 + ·))

/-- A character outside any escape. -/
def plainStep (text : OpenText) (c : Char) : Reading OpenText :=
  if c == '"' then .ended
  else if c == '\\' then .more { text with escape := .backslash }
  else if c.toNat < 0x20 then .malformed
  else .more (text.add c)

/-- The character after a backslash. -/
def escapeStep (text : OpenText) (c : Char) : Reading OpenText :=
  if c == 'u' then .more { text with escape := .unit 0 (some 0) }
  else
    match escaped? c with
    | some c => .more (text.add c)
    | none => .malformed

/-- Reads one more character. A half of a pair that nothing completes stands alone. -/
def step (text : OpenText) (c : Char) : Reading OpenText :=
  match text.escape with
  | .none => text.plainStep c
  | .backslash => text.escapeStep c
  | .unit bytes value =>
    let (bytes, value) := unitStep bytes value c
    if bytes < 4 then .more { text with escape := .unit bytes value }
    else text.endUnit value
  | .half first =>
    if c == '\\' then .more { text with escape := .halfBackslash first }
    else { text with unpaired := true }.plainStep c
  | .halfBackslash first =>
    if c == 'u' then .more { text with escape := .halfUnit first 0 (some 0) }
    else { text with unpaired := true }.escapeStep c
  | .halfUnit first bytes value =>
    let (bytes, value) := unitStep bytes value c
    if bytes < 4 then .more { text with escape := .halfUnit first bytes value }
    else text.endPair first value

/-- The token of a string whose closing quote has been read. -/
def close (text : OpenText) : Token :=
  match text.unpaired, text.escape with
  | true, _ | _, .half _ => .unpaired
  | false, _ => .atom (.text (String.ofList text.characters.reverse))

end OpenText

/-- What the machine is in the middle of. -/
inductive State where
  | between
  /-- A literal name, with the characters that are still due and its value. -/
  | word (due : List Char) (value : Atom)
  | number (number : OpenNumber)
  | text (text : OpenText)
  /-- A character was met that no token can take. -/
  | stopped
  deriving Repr

/-- The blanks that may stand between tokens. -/
def isBlank (c : Char) : Bool := c == ' ' || c == '\n' || c == '\t' || c == '\r'

/-- A character between tokens: the token it is, or the one it opens. -/
def begin (c : Char) : List Token × State :=
  if isBlank c then ([], .between)
  else if c.isDigit then
    if c == '0' then ([], .number { part := .zero })
    else ([], .number ({ part := .whole : OpenNumber }.addWhole (c.toNat - '0'.toNat)))
  else
    match c with
    | '[' => ([.openList], .between)
    | ']' => ([.closeList], .between)
    | '\x7b' => ([.openObject], .between)
    | '\x7d' => ([.closeObject], .between)
    | ':' => ([.colon], .between)
    | ',' => ([.comma], .between)
    | '"' => ([], .text {})
    | '-' => ([], .number { part := .sign, negative := true })
    | 'n' => ([], .word ['u', 'l', 'l'] .null)
    | 't' => ([], .word ['r', 'u', 'e'] (.boolean true))
    | 'f' => ([], .word ['a', 'l', 's', 'e'] (.boolean false))
    | _ => ([.malformed], .stopped)

/-- Reads one character: the tokens it completes and the state after it. -/
def step : State → Char → List Token × State
  | .between, c => begin c
  | .word [] value, c => let (tokens, state) := begin c; (.atom value :: tokens, state)
  | .word (due :: rest) value, c =>
    if c != due then ([.malformed], .stopped)
    else if rest.isEmpty then ([.atom value], .between)
    else ([], .word rest value)
  | .number number, c =>
    match number.step c with
    | .more number => ([], .number number)
    | .ended => let (tokens, state) := begin c; (number.close :: tokens, state)
    | .malformed => ([.malformed], .stopped)
  | .text text, c =>
    match text.step c with
    | .more text => ([], .text text)
    | .ended => ([text.close], .between)
    | .malformed => ([.malformed], .stopped)
  | .stopped, _ => ([], .stopped)

/-- The tokens that the end of the text completes or cuts off. -/
def finish : State → List Token
  | .between | .stopped => []
  | .word _ value => [.cutWord value]
  | .text text => [.cutText text.unpaired]
  | .number number => [number.close]

/-- Reads one character after some tokens, which are kept in reverse. -/
def advance : List Token × State → Char → List Token × State
  | (read, state), c =>
    let (tokens, state) := step state c
    (tokens.reverse ++ read, state)

/-- The tokens of a text, up to the first character that no token can take. -/
def ofText (text : String) : List Token :=
  let (read, state) := text.toList.foldl advance ([], .between)
  read.reverse ++ finish state

end Token

end VectorMotion.Json
