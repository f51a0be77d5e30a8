import LineScript.Source.Line
import LineScript.Text.Blank
import LineScript.Token.Basic

/-!
# Scanning a source

Scanning turns the lines of a source into findings: tokens, and diagnostics at the place where
they are noticed.  It never fails.  Three kinds of text are no token:

* the lines between two markers `~~`, which are a block comment;
* everything from the first `#` of a line to its end;
* a line without a word besides its ornaments.

A comment after words is dropped with a diagnostic, because it was probably meant as an argument.
A block comment that the source leaves open is reported once, after all lines.
-/

namespace LineScript

/-- What scanning comes upon. -/
inductive Finding where
  | token (token : LineToken)
  | diagnostic (diagnostic : Diagnostic)
  deriving DecidableEq, Repr

namespace SourceLine

/-- A marker line opens a block comment or closes it. -/
def isCommentMarker (line : SourceLine) : Bool := Text.trim line.text == "~~".toList

/-- The text before the first `#`. -/
def code (line : SourceLine) : List Char := line.text.takeWhile (· != '#')

/-- The words before the first `#`. -/
def words (line : SourceLine) : List String := (Text.words line.code).map String.ofList

/-- The token of a line, if it has a word besides its ornaments. -/
def token? (line : SourceLine) : Option LineToken :=
  let ornaments := Ornaments.ofWords line.words
  match ornaments.content with
  | [] => none
  | action :: args =>
      some ⟨action, args, ornaments.state, ornaments.pictograph, line.number, line.span⟩

/-- The remark on a comment that comes after words. -/
def commentDiagnostic? (line : SourceLine) : Option Diagnostic :=
  if !line.words.isEmpty && line.text.contains '#' then
    some ⟨"inline comments are not supported (ignored)", line.number,
      ⟨line.start + Text.byteLength line.code, line.span.stop⟩⟩
  else
    none

/-- What a line outside block comments contributes. -/
def findings (line : SourceLine) : List Finding :=
  (line.commentDiagnostic?.map .diagnostic).toList ++ (line.token?.map .token).toList

/-- The remark on a block comment that this line opens and nothing closes. -/
def openCommentDiagnostic (line : SourceLine) : Diagnostic :=
  ⟨"unclosed block comment (~~)", line.number, line.span⟩

end SourceLine

/-- The findings of lines; `comment` is the marker line of the block comment that they begin in. -/
def findingsOfLines (comment : Option SourceLine) : List SourceLine → List Finding
  | [] => (comment.map fun line => .diagnostic line.openCommentDiagnostic).toList
  | line :: rest =>
      if line.isCommentMarker then
        findingsOfLines (if comment.isSome then none else some line) rest
      else if comment.isSome then
        findingsOfLines comment rest
      else
        line.findings ++ findingsOfLines none rest

/-- The findings of a source, in order. -/
def findings (source : String) : List Finding := findingsOfLines none (Source.lines source)

/-- The tokens among findings. -/
def tokensOf (findings : List Finding) : List LineToken :=
  findings.filterMap fun
    | .token token => some token
    | .diagnostic _ => none

/-- The diagnostics among findings. -/
def diagnosticsOf (findings : List Finding) : List Diagnostic :=
  findings.filterMap fun
    | .token _ => none
    | .diagnostic diagnostic => some diagnostic

/-- Reads findings up to the first token: the diagnostics before it, the token, and the findings
after it. -/
def nextToken : List Finding → List Diagnostic × Option LineToken × List Finding
  | [] => ([], none, [])
  | .token token :: rest => ([], some token, rest)
  | .diagnostic diagnostic :: rest =>
      let (diagnostics, token, rest) := nextToken rest
      (diagnostic :: diagnostics, token, rest)

end LineScript
