import LineScript.Statement.Value

/-!
# Failures

Why a program or its settings are refused.  The readers know causes; a failure adds the place in
the source and the wording.
-/

namespace LineScript

/-- Why nothing came of a source or of settings. -/
inductive Failure where
  /-- A line of the source is no statement. -/
  | parse (message : String) (span : Span)
  /-- Parentheses enclose something other than a combination. -/
  | grouping (span : Span)
  /-- There is no code for a statement. -/
  | generation (message : String) (span : Option Span)
  /-- The text of the settings is malformed. -/
  | settings
  /-- The file of the settings cannot be read. -/
  | file
  deriving DecidableEq, Repr, Inhabited

namespace Failure

/-- The full wording of a failure. -/
def message : Failure → String
  | .parse message _ => "Parser error: " ++ message
  | .grouping _ =>
      "Parser error: parentheses are only for expression grouping (e.g. (a + b) * c); " ++
        "write the name or value without parentheses"
  | .generation message _ => "Code generation error: " ++ message
  | .settings => "Config error"
  | .file => "IO error"

/-- The place of a failure in the source. -/
def span? : Failure → Option Span
  | .parse _ span => some span
  | .grouping span => some span
  | .generation _ span => span
  | .settings | .file => none

/-- Whether misplaced parentheses are the failure. -/
def isGrouping : Failure → Bool
  | .grouping _ => true
  | _ => false

end Failure

/-- The failure of an expression at a place of the source. -/
def ExprError.at (cause : ExprError) (span : Span) : Failure :=
  match cause with
  | .misplacedParentheses => .grouping span
  | cause => .parse cause.message span

/-- The failure of a line at a place of the source. -/
def LineError.at (cause : LineError) (span : Span) : Failure :=
  match cause with
  | .expression cause => cause.at span
  | cause => .parse cause.message span

end LineScript
