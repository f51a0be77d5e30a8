import LineScript.Failure
import LineScript.Text.Blank
import LineScript.Text.Length

/-!
# Reports

A report tells a reader of the source what is wrong, and where.  Its place is a line and a column,
which count characters, while spans count bytes.

A report is drawn as a frame around the lines of its span, with their numbers in the margin, and
its label is the last thing inside.  The label is everything from its message to the end of the
drawing, without the line that closes the frame of the narrowest margin.  A wider margin has a
wider closing line, which stays at the label.
-/

namespace LineScript

/-- A position in a text: a line and a column, both counted from one. -/
structure Place where
  line : Nat
  column : Nat
  deriving DecidableEq, Repr, Inhabited

namespace Place

/-- A place as it is written in reports. -/
def text (place : Place) : String := toString place.line ++ ":" ++ toString place.column

/-- Characters that end a line where lines are counted.  There are more of them than for the
language itself, which only knows the line feed. -/
def isLineBreak (c : Char) : Bool :=
  "\n\r\x0b\x0c\u0085\u2028\u2029".toList.contains c

/-- Whether a new line begins behind a character: the text goes on after it, and it is no carriage
return in front of a line feed. -/
def beginsLine (c : Char) (rest : List Char) : Bool :=
  isLineBreak c && !rest.isEmpty && !(c == '\r' && rest.head? == some '\n')

/-- The place `offset` bytes behind the place that a text begins at. -/
def advance (place : Place) (offset : Nat) : List Char → Place
  | [] => place
  | c :: rest =>
      if offset < c.utf8Size then place
      else if beginsLine c rest then advance ⟨place.line + 1, 1⟩ (offset - c.utf8Size) rest
      else advance ⟨place.line, place.column + 1⟩ (offset - c.utf8Size) rest

/-- The place of a byte of a source. -/
def ofOffset (source : String) (offset : Nat) : Place := advance ⟨1, 1⟩ offset source.toList

end Place

/-- What a report says. -/
structure Report where
  title : String
  /-- Where the report points to. -/
  place : Option Place
  /-- What the report says there. -/
  label : Option String
  deriving DecidableEq, Repr, Inhabited

namespace Report

/-- Whether a span lies inside of a text of `size` bytes. -/
def isInside (span : Span) (size : Nat) : Bool :=
  span.start ≤ size && (span.stop ≤ span.start || span.stop - 1 ≤ size)

/-- The width of the margin of a report: the digits of the number of the last line of its span. -/
def marginWidth (source : String) (span : Span) : Nat :=
  let last := Place.ofOffset source (max span.start (span.stop - 1))
  (Nat.toDigits 10 last.line).length

/-- The line that closes a frame with a margin of some width. -/
def closingLine (width : Nat) : List Char := List.replicate (width + 2) '─' ++ ['╯']

/-- A label with a message, in a frame with a margin of some width. -/
def labelText (message : String) (width : Nat) : String :=
  let closing := if width ≤ 1 then [] else '\n' :: closingLine width
  String.ofList (Text.trimEnd (message.toList ++ closing))

/-- A report that points to a span of a source. -/
def ofSpan (title message source : String) (span : Option Span) : Report :=
  match span.filter (isInside · (Text.byteLength source.toList)) with
  | none => ⟨title, none, none⟩
  | some span =>
      ⟨title, some (.ofOffset source span.start),
        some (labelText message (marginWidth source span))⟩

end Report

/-- The report on a diagnostic. -/
def Diagnostic.report (diagnostic : Diagnostic) (source : String) : Report :=
  .ofSpan "Warning: Warning" diagnostic.message source diagnostic.span

/-- The report on a failure.  There is none on settings, which are no part of the source. -/
def Failure.report? (failure : Failure) (source : String) : Option Report :=
  match failure with
  | .parse message span => some (.ofSpan "Error: Parser error" message source span)
  | .grouping span =>
      some (.ofSpan "Error: Parser error" ExprError.misplacedParentheses.message source span)
  | .generation message span =>
      some (.ofSpan "Error: Code generation error" message source span)
  | .settings | .file => none

end LineScript
