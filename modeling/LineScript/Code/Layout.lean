import LineScript.Statement.Basic

/-!
# The levels of code lines

How deep each line of code is indented follows from the order of the statements alone.  A header
takes the lines after it one level deeper and a terminator one level back.  A branch that goes on
with a statement goes back by itself, unless a terminator came directly before it.
-/

namespace LineScript

/-- The state of the levels between two statements. -/
structure Layout where
  depth : Nat := 0
  /-- Whether a terminator came last; arrows do not count. -/
  afterEnd : Bool := false
  deriving DecidableEq, Repr, Inhabited

namespace Layout

/-- The level of the code of an action. -/
def levelOf (layout : Layout) (word : ActionWord) : Nat :=
  if word.continuesBlock && !layout.afterEnd then layout.depth - 1 else layout.depth

/-- The state after a statement. -/
def after (layout : Layout) : Statement → Layout
  | .line content =>
      let level := layout.levelOf content.action.word
      ⟨if content.action.word.opensBlock then level + 1 else level, false⟩
  | .block .. => { layout with afterEnd := false }
  | .blockEnd .. => ⟨layout.depth - 1, true⟩
  | .arrow _ => layout

end Layout

end LineScript
