/-!
# Blanks

The characters that count as blank space around a word: the Unicode ones, not only those of ASCII.
-/

namespace VectorMotion.Text

/-- Whether a character is blank space. -/
def isBlank (c : Char) : Bool :=
  let n := c.toNat
  (0x9 ≤ n && n ≤ 0xD) || n == 0x20 || n == 0x85 || n == 0xA0 || n == 0x1680 ||
    (0x2000 ≤ n && n ≤ 0x200A) || n == 0x2028 || n == 0x2029 || n == 0x202F || n == 0x205F ||
    n == 0x3000

/-- A text without the blanks in front of it. -/
def stripStart (text : List Char) : List Char := text.dropWhile isBlank

/-- A text without the blanks behind it. -/
def stripEnd (text : List Char) : List Char := (text.reverse.dropWhile isBlank).reverse

/-- A text without the blanks around it. -/
def strip (text : List Char) : List Char := stripEnd (stripStart text)

end VectorMotion.Text
