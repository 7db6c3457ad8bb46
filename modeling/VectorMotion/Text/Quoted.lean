import VectorMotion.Text.Hidden

/-!
# Quoted text

How a message quotes a string of a document: in double quotes, with quotes, backslashes and
characters that would not show written as escapes. A character that does not show and has no
escape of its own is written by its code point in hexadecimal.
-/

namespace VectorMotion.Text

/-- A number in hexadecimal, in small letters and without leading zeros. -/
def hexadecimal (n : Nat) : List Char := Nat.toDigits 16 n

/-- One character within quotes. -/
def escaped (c : Char) : List Char :=
  match c with
  | '"' => ['\\', '"']
  | '\\' => ['\\', '\\']
  | '\n' => ['\\', 'n']
  | '\r' => ['\\', 'r']
  | '\t' => ['\\', 't']
  | '\x00' => ['\\', '0']
  | c => if shows c then [c] else '\\' :: 'u' :: '\x7b' :: hexadecimal c.toNat ++ ['\x7d']

/-- The string in quotes. -/
def quoted (text : String) : String :=
  String.ofList ('"' :: text.toList.flatMap escaped ++ ['"'])

end VectorMotion.Text
