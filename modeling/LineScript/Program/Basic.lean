import LineScript.Statement.Basic

/-!
# Programs

A program is a list of flows, a flow a list of segments, and a segment a list of statements.
-/

namespace LineScript

/-- Statements between two breaks. -/
structure Segment where
  statements : List Statement
  deriving Repr, BEq, Inhabited

/-- A run of segments. -/
structure Flow where
  segments : List Segment
  deriving Repr, BEq, Inhabited

/-- A program. -/
structure Program where
  flows : List Flow
  deriving Repr, BEq, Inhabited

namespace Program

/-- All statements, in source order. -/
def statements (program : Program) : List Statement :=
  program.flows.flatMap fun flow => flow.segments.flatMap fun segment => segment.statements

/-- All lines with actions, in source order. -/
def lines (program : Program) : List Line := program.statements.filterMap Statement.line?

/-- All arrows, in source order. -/
def arrows (program : Program) : List Arrow := program.statements.filterMap Statement.arrow?

end Program

end LineScript
