import LineScript.Source.Span
import LineScript.Token.Pictograph
import LineScript.Vocabulary

/-!
# Line tokens

The language is read a line at a time, so its token is a whole line: an action word, the words
after it, and the ornaments in front of it.
-/

namespace LineScript

/-- A significant line of a source. -/
structure LineToken where
  /-- The first word after the ornaments. -/
  action : String
  /-- The words after the action. -/
  args : List String
  state : LineState := .continued
  pictograph : Option String := none
  /-- The number of the line, counted from one. -/
  line : Nat := 0
  span : Span := {}
  deriving DecidableEq, Repr, Inhabited

/-- The words of a line, parted into ornaments and content. -/
structure Ornaments where
  state : LineState
  pictograph : Option String
  /-- The words after the ornaments. -/
  content : List String

namespace Ornaments

/-- Parts words from a pictograph in front of them. -/
def withState (state : LineState) : List String → Ornaments
  | [] => ⟨state, none, []⟩
  | word :: rest =>
      if isPictograph word then ⟨state, some word, rest⟩ else ⟨state, none, word :: rest⟩

/-- Parts the words of a line: first comes an optional state glyph, then an optional
pictograph. -/
def ofWords : List String → Ornaments
  | [] => ⟨.continued, none, []⟩
  | word :: rest =>
      match LineState.ofGlyph? word with
      | some state => withState state rest
      | none => withState .continued (word :: rest)

end Ornaments

end LineScript
