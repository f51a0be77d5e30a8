import LineScript.Failure
import LineScript.Program.Basic
import LineScript.Program.Blocks
import LineScript.Statement.Read
import LineScript.Token.Scan

/-!
# Reading programs

A program is read line by line.  The only thing that a line hands on to the next one is the set of
known names, and a name is known from the line after its declaration on.  The segments and the
remarks on blocks are read off the list of tokens and their statements.
-/

namespace LineScript

/-- Reads lines, the first of them with the given known names, up to the first that is no
statement. -/
def readLines (known : KnownNames) : List LineToken → Except Failure (List (LineToken × Statement))
  | [] => .ok []
  | token :: rest =>
      match readStatement known token with
      | .error cause => .error (cause.at token.span)
      | .ok statement => do
          let lines ← readLines (known.declareAll statement.declares) rest
          return (token, statement) :: lines

/-- Whether a line closes the segment that its statement belongs to.  Headers of one word and the
ends of blocks never do. -/
def closesSegment (token : LineToken) (statement : Statement) : Bool :=
  token.state.endsSegment &&
    match statement with
    | .line _ => token.headerName?.isNone
    | .arrow _ => true
    | .block .. | .blockEnd .. => false

/-- The segments of lines; each ends with a line that closes it or with the last line. -/
def segmentsOf : List (LineToken × Statement) → List Segment
  | [] => []
  | (token, statement) :: rest =>
      if closesSegment token statement then ⟨[statement]⟩ :: segmentsOf rest
      else match segmentsOf rest with
        | [] => [⟨[statement]⟩]
        | segment :: others => ⟨statement :: segment.statements⟩ :: others

/-- The program of lines: one flow, or none if there are no lines. -/
def programOf (lines : List (LineToken × Statement)) : Program :=
  match segmentsOf lines with
  | [] => ⟨[]⟩
  | segments => ⟨[⟨segments⟩]⟩

/-- A program and the remarks on it. -/
structure Parsed where
  program : Program
  diagnostics : List Diagnostic
  deriving Repr

/-- Reads a program from tokens; `diagnostics` are the remarks made before. -/
def readProgram (tokens : List LineToken) (diagnostics : List Diagnostic) :
    Except Failure Parsed := do
  let lines ← readLines .empty tokens
  return ⟨programOf lines, diagnostics ++ blockDiagnostics lines⟩

/-- Reads a program from a source. -/
def parse (source : String) : Except Failure Parsed :=
  let found := findings source
  readProgram (tokensOf found) (diagnosticsOf found)

end LineScript
