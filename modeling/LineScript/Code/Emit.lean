import LineScript.Code.Layout
import LineScript.Code.Statement
import LineScript.Failure
import LineScript.Program.Basic

/-!
# Generating code

The code of a program is a list of lines, each a level of indentation and a text.  Only the last
step turns levels into blanks and joins the lines.
-/

namespace LineScript

/-- A line of code: its level of indentation and its text. -/
structure CodeLine where
  level : Nat
  text : String
  deriving DecidableEq, Repr, Inhabited

/-- A line as it is written. -/
def CodeLine.render (indent : String) (line : CodeLine) : String :=
  String.join (List.replicate line.level indent) ++ line.text

/-- What comes of generating code for statements. -/
structure Emission where
  /-- The lines up to the first failure. -/
  lines : List CodeLine
  /-- The first failure. -/
  failure : Option Failure
  /-- The layout after the last statement that was reached. -/
  layout : Layout

/-- Generates the lines of statements up to the first that there is no code for. -/
def emit (settings : Settings) (layout : Layout) : List Statement → Emission
  | [] => ⟨[], none, layout⟩
  | .line content :: rest =>
      match content.action.code settings with
      | .error cause => ⟨[], some (.generation cause.message content.span), layout⟩
      | .ok text =>
          let emission := emit settings (layout.after (.line content)) rest
          { emission with
            lines := ⟨layout.levelOf content.action.word, text⟩ :: emission.lines }
  | statement :: rest => emit settings (layout.after statement) rest

open Code in
/-- The helper function for assignments to elements, and an empty line. -/
def helperLines : List CodeLine := [
  ⟨0, "def " ++ helperName ++ "(name, container, index, value):"⟩,
  ⟨1, "if isinstance(container, str) or not hasattr(container, \"__setitem__\"):"⟩,
  ⟨2, "raise TypeError(f\"cannot assign by index into \x7bname\x7d: " ++
    "\x7btype(container).__name__\x7d is not a list or map\")"⟩,
  ⟨1, "container[index] = value"⟩,
  ⟨0, ""⟩]

/-- Whether a statement assigns to an element. -/
def Statement.isIndexSet : Statement → Bool
  | .line ⟨.indexSet .., _, _, _, _⟩ => true
  | _ => false

/-- The lines in front of the code of statements: the helper function where it is used. -/
def preludeOf (settings : Settings) (statements : List Statement) : List CodeLine :=
  if settings.runtimeHelpers && statements.any Statement.isIndexSet then helperLines else []

/-- Lines of code as one text. -/
def renderLines (settings : Settings) (lines : List CodeLine) : String :=
  let text := "\n".intercalate (lines.map (·.render settings.indent))
  if settings.trailingNewline && !text.isEmpty then text ++ "\n" else text

/-- The code of a program, and the level that its end is at. -/
structure Generated where
  code : Except Failure String
  depth : Nat

/-- Generates the code of a program. -/
def Program.generate (settings : Settings) (program : Program) : Generated :=
  let statements := program.statements
  let emission := emit settings {} statements
  match emission.failure with
  | some failure => ⟨.error failure, emission.layout.depth⟩
  | none =>
      ⟨.ok (renderLines settings (preludeOf settings statements ++ emission.lines)),
        emission.layout.depth⟩

end LineScript
