import LineScript.Text.CharTable

/-!
# Pictographs

A line may carry an emoji, a symbol or a face such as `(^_^)` before its action.  Such a word is
an ornament: it is kept with the line and has no other effect.  `isPictograph` tells these words
from action words.
-/

namespace LineScript.Pictograph

open Text (CharTable)

/-- Emoji. -/
def emoji : CharTable := [
  (0x1F600, 0x1F64F), (0x1F300, 0x1F5FF), (0x1F680, 0x1F6FF), (0x1F1E0, 0x1F1FF),
  (0x2600, 0x26FF), (0x2700, 0x27BF), (0x1F900, 0x1F9FF), (0x1FA00, 0x1FA6F),
  (0x1FA70, 0x1FAFF), (0x231A, 0x231B), (0x23E9, 0x23F3), (0x23F8, 0x23FA), (0x25AA, 0x25AB),
  (0x25B6, 0x25C0), (0x25FB, 0x25FE), (0x2934, 0x2935), (0x2B05, 0x2B07), (0x2B1B, 0x2B1C),
  (0x200D, 0x200D), (0xFE0F, 0xFE0F)]

/-- Symbols other than emoji, a whole block at a time where nearly all of it is symbols. -/
def symbols : CharTable := [
  (0x00A6, 0x00A6), (0x00A9, 0x00A9), (0x00AE, 0x00AE), (0x00B0, 0x00B0), (0x0482, 0x0482),
  -- letterlike symbols, arrows, technical signs
  (0x2100, 0x214F), (0x2190, 0x21FF), (0x2300, 0x23FF),
  -- control pictures and enclosed alphanumerics, box drawing and shapes, braille
  (0x2400, 0x24FF), (0x2500, 0x25FF), (0x2800, 0x28FF), (0x2B00, 0x2BFF),
  -- radicals and ideographic description
  (0x2E80, 0x2FFF), (0x3004, 0x3004), (0x3012, 0x3013), (0x3020, 0x3020), (0x3036, 0x3037),
  (0x303E, 0x303F), (0x3190, 0x3191), (0x3196, 0x319F),
  -- strokes, enclosed letters, hexagrams
  (0x31C0, 0x31E3), (0x3200, 0x33FF), (0x4DC0, 0x4DFF), (0xA490, 0xA4C6),
  (0xFFE4, 0xFFE4), (0xFFE8, 0xFFE8), (0xFFED, 0xFFEE), (0xFFFC, 0xFFFD),
  -- musical signs, tiles and enclosed signs, blocks of old computers
  (0x1D000, 0x1D24F), (0x1F000, 0x1F2FF), (0x1FB00, 0x1FBFF)]

/-- Characters that a pictograph may begin with. -/
def isPicture (c : Char) : Bool := emoji.contains c || symbols.contains c

/-- Characters that mark a word in parentheses as a face. -/
def isFacial (c : Char) : Bool :=
  "^`+<=>|~$¬°×÷▽△*_・ω゜".toList.contains c || isPicture c

/-- A face: parentheses around at least one character, one of them facial. -/
def isFace (word : List Char) : Bool :=
  word.head? == some '(' && word.getLast? == some ')' && 3 ≤ word.length &&
    word.tail.dropLast.any isFacial

end LineScript.Pictograph

namespace LineScript

/-- Whether a word is an emoji, a symbol or a face. -/
def isPictograph (word : String) : Bool :=
  Pictograph.isFace word.toList || word.toList.head?.any Pictograph.isPicture

end LineScript
