import LineScript.Source.Line
import LineScript.Statement.Value
import LineScript.Text.Blank
import LineScript.Token.Basic

/-!
# Formatting a source

The language needs no indentation, but a source reads better with it.  Formatting indents each
line by the blocks around it, as far as they show in the first word and the last character of the
lines.  A line that ends with a colon opens a level, a terminator closes one, and a branch that
goes on with a statement does both.  Lines of a block comment stay as they are.
-/

namespace LineScript.Format

/-- The lines of a source; a carriage return is only dropped in front of a line feed. -/
def lines (source : List Char) : List (List Char) :=
  let pieces := source.splitOnP (· == '\n')
  let last := pieces.getLast?.getD []
  pieces.dropLast.map Source.dropReturn ++ if last.isEmpty then [] else [last]

/-- What a line does to the level of the lines after it. -/
inductive Shape where
  | plain | opens | closes | continues
  deriving DecidableEq, Repr

/-- The first word of a line besides its ornaments. -/
def actionWord (text : List Char) : String :=
  (Ornaments.ofWords ((Text.words text).map String.ofList)).content.head?.getD ""

/-- What a line without white space at its ends does. -/
def shapeOf (text : List Char) : Shape :=
  let word := actionWord text
  if text.head? = some '#' then .plain
  else if isBlockEnd word then .closes
  else if (ActionWord.ofSpelling? ((withoutColon? word).getD word)).any (·.continuesBlock) then
    .continues
  else if text.getLast? = some ':' then .opens
  else .plain

/-- The level of a line of a shape, under the level that the lines before it leave. -/
def Shape.levelOf (shape : Shape) (level : Nat) : Nat :=
  match shape with
  | .plain | .opens => level
  | .closes | .continues => level - 1

/-- The level that a line of a shape leaves to the lines after it. -/
def Shape.levelAfter (shape : Shape) (level : Nat) : Nat :=
  match shape with
  | .plain => level
  | .opens => level + 1
  | .closes => level - 1
  | .continues => level - 1 + 1

/-- A text behind a number of indents. -/
def indented (indent : List Char) (level : Nat) (text : List Char) : List Char :=
  (List.replicate level indent).flatten ++ text

/-- Indents lines; `level` is the level of the first one, and `inComment` says whether it belongs
to a block comment. -/
def indentLines (indent : List Char) (level : Nat) (inComment : Bool) :
    List (List Char) → List (List Char)
  | [] => []
  | line :: rest =>
      let text := Text.trim line
      if text.isEmpty then [] :: indentLines indent level inComment rest
      else if text == "~~".toList then text :: indentLines indent level (!inComment) rest
      else if inComment then line :: indentLines indent level inComment rest
      else
        let shape := shapeOf text
        indented indent (shape.levelOf level) text ::
          indentLines indent (shape.levelAfter level) inComment rest

/-- Formats lines with a text as one level of indentation.  Without one, only white space at the
ends of lines goes. -/
def formatLines (indent : List Char) (lines : List (List Char)) : List (List Char) :=
  if indent.isEmpty then lines.map Text.trimEnd else indentLines indent 0 false lines

end LineScript.Format

namespace LineScript

/-- Formats a source. -/
def format (indent source : String) : String :=
  let text := ['\n'].intercalate (Format.formatLines indent.toList (Format.lines source.toList))
  String.ofList (if source.toList.getLast? = some '\n' then text ++ ['\n'] else text)

end LineScript
