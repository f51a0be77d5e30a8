/-!
# Spans and diagnostics

A span is a range of bytes of a source.  A diagnostic is a remark on a line of the source that
stops nothing.
-/

namespace LineScript

/-- A range of bytes: `start` is its first byte and `stop` the first one after it. -/
structure Span where
  start : Nat := 0
  stop : Nat := 0
  deriving DecidableEq, Repr, Inhabited

/-- A remark on a source line, which never keeps a program from being compiled. -/
structure Diagnostic where
  message : String
  /-- The number of the line, counted from one. -/
  line : Nat
  span : Span
  deriving DecidableEq, Repr, Inhabited

/-- The text of a diagnostic: its message and its line. -/
def Diagnostic.text (diagnostic : Diagnostic) : String :=
  diagnostic.message ++ " [line " ++ toString diagnostic.line ++ "]"

end LineScript
