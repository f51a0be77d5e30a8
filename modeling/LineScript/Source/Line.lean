import LineScript.Source.Span
import LineScript.Text.Length

/-!
# Source lines

A source is cut at its line feeds.  A final empty piece is not a line, so that a line feed at the
end of a source closes its last line and opens no other.  One carriage return at the end of a
piece belongs to the line break and not to the line.
-/

namespace LineScript

/-- A line of a source, without its line break. -/
structure SourceLine where
  /-- The number of the line, counted from one. -/
  number : Nat
  /-- The byte offset of the line in its source. -/
  start : Nat
  text : List Char
  deriving DecidableEq, Repr, Inhabited

namespace SourceLine

/-- The bytes of the line. -/
def span (line : SourceLine) : Span := ⟨line.start, line.start + Text.byteLength line.text⟩

end SourceLine

namespace Source

/-- The pieces between line feeds, without a final empty one. -/
def pieces (source : List Char) : List (List Char) :=
  let all := source.splitOnP (· == '\n')
  if all.getLast? = some [] then all.dropLast else all

/-- Removes one carriage return at the end. -/
def dropReturn (piece : List Char) : List Char :=
  if piece.getLast? = some '\r' then piece.dropLast else piece

/-- The lines of consecutive pieces, the first of them with the given number and offset. -/
def linesFrom (number start : Nat) : List (List Char) → List SourceLine
  | [] => []
  | piece :: rest =>
      ⟨number, start, dropReturn piece⟩ ::
        linesFrom (number + 1) (start + Text.byteLength piece + 1) rest

/-- The lines of a source. -/
def lines (source : String) : List SourceLine := linesFrom 1 0 (pieces source.toList)

end Source

end LineScript
