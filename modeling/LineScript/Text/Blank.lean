import LineScript.Text.CharTable

/-!
# White space

White space is the Unicode property `White_Space`.  Everything that reads a source line goes
through the three operations of this file: `trim`, `trimEnd` and `words`.
-/

namespace LineScript.Text

/-- The Unicode property `White_Space`. -/
def blanks : CharTable := [
  (0x09, 0x0D), (0x20, 0x20), (0x85, 0x85), (0xA0, 0xA0), (0x1680, 0x1680), (0x2000, 0x200A),
  (0x2028, 0x2029), (0x202F, 0x202F), (0x205F, 0x205F), (0x3000, 0x3000)]

/-- Whether a character is white space. -/
def isBlank (c : Char) : Bool := blanks.contains c

/-- Removes white space at the start. -/
def trimStart (text : List Char) : List Char := text.dropWhile isBlank

/-- Removes white space at the end. -/
def trimEnd (text : List Char) : List Char := (text.reverse.dropWhile isBlank).reverse

/-- Removes white space at both ends. -/
def trim (text : List Char) : List Char := trimEnd (trimStart text)

/-- The maximal stretches without white space, in order. -/
def words (text : List Char) : List (List Char) :=
  (text.splitOnP isBlank).filter fun word => !word.isEmpty

@[simp] theorem words_nil : words [] = [] := rfl

end LineScript.Text
