import LineScript.Dump.Tree
import LineScript.Program.Basic

/-!
# Programs as JSON

The dump of a program holds everything about it except the spans of its lines.  Each object of a
type with several forms begins with the name of its form.
-/

namespace LineScript

/-- An optional string. -/
def Json.ofText? : Option String → Json
  | none => .null
  | some value => .text value

/-- An array of strings. -/
def Json.ofTexts (texts : List String) : Json := .array (texts.map .text)

/-- The name of a state in dumps. -/
def LineState.tag : LineState → String
  | .continued => "Continue" | .advance => "Advance" | .echo => "Echo"
  | .strong => "Strong" | .tentative => "Tentative"

/-- The name of a direction in dumps. -/
def ArrowDirection.tag : ArrowDirection → String
  | .forward => "Forward" | .backward => "Backward"

/-- The name of an operator in dumps. -/
def BinaryOp.tag : BinaryOp → String
  | .or => "Or" | .and => "And" | .eq => "Eq" | .ne => "Ne" | .lt => "Lt" | .le => "Le"
  | .gt => "Gt" | .ge => "Ge" | .add => "Add" | .sub => "Sub" | .mul => "Mul" | .div => "Div"

/-- The name of an operator in dumps. -/
def UnaryOp.tag : UnaryOp → String
  | .not => "Not" | .neg => "Neg" | .plus => "Plus"

/-- The name of an operation in dumps. -/
def ArithOp.tag : ArithOp → String
  | .add => "Add" | .sub => "Sub" | .mul => "Mul" | .div => "Div"

namespace Expr

mutual

/-- The dump of an expression. -/
def dump : Expr → Json
  | .number text => .object [("type", .text "Number"), ("value", .text text)]
  | .bool value => .object [("type", .text "Bool"), ("value", .bool value)]
  | .none => .object [("type", .text "None")]
  | .ident name => .object [("type", .text "Ident"), ("name", .text name)]
  | .str text quoted =>
      .object [("type", .text "Str"), ("value", .text text), ("quoted", .bool quoted)]
  | .binary op left right =>
      .object [("type", .text "Binary"), ("op", .text op.tag), ("left", left.dump),
        ("right", right.dump)]
  | .unary op operand =>
      .object [("type", .text "Unary"), ("op", .text op.tag), ("operand", operand.dump)]
  | .list elements => .object [("type", .text "List"), ("elements", .array (dumps elements))]
  | .dict entries => .object [("type", .text "Dict"), ("entries", .array (entryDumps entries))]
  | .index container position =>
      .object [("type", .text "Index"), ("container", container.dump), ("index", position.dump)]
  | .call func args =>
      .object [("type", .text "Call"), ("func", .text func), ("args", .array (dumps args))]

/-- The dumps of expressions. -/
def dumps : List Expr → List Json
  | [] => []
  | expr :: rest => expr.dump :: dumps rest

/-- The dumps of the entries of a dictionary. -/
def entryDumps : List (Expr × Expr) → List Json
  | [] => []
  | (key, value) :: rest =>
      .object [("key", key.dump), ("value", value.dump)] :: entryDumps rest

end

/-- The dump of an optional expression. -/
def dump? : Option Expr → Json
  | Option.none => .null
  | some expr => expr.dump

end Expr

/-- The dump of an action. -/
def Action.dump : Action → Json
  | .set name value => form "Set" [("name", .text name), ("value", value.dump)]
  | .indexSet container position value =>
      form "IndexSet"
        [("container", .text container), ("index", position.dump), ("value", value.dump)]
  | .print value => form "Print" [("value", Expr.dump? value)]
  | .ifBranch condition => form "If" [("condition", condition.dump)]
  | .elifBranch condition => form "Elif" [("condition", condition.dump)]
  | .elseBranch => form "Else" []
  | .whileLoop condition => form "While" [("condition", condition.dump)]
  | .forLoop var iterable => form "For" [("var", .text var), ("iterable", iterable.dump)]
  | .define name params => form "Def" [("name", .text name), ("params", .ofTexts params)]
  | .returnValue value => form "Return" [("value", Expr.dump? value)]
  | .call func args => form "Call" [("func", .text func), ("args", .array (Expr.dumps args))]
  | .global names => form "Global" [("names", .ofTexts names)]
  | .breakLoop => form "Break" []
  | .continueLoop => form "Continue" []
  | .pass => form "Pass" []
  | .tryBlock => form "Try" []
  | .exceptBlock exception => form "Except" [("exception", .ofText? exception)]
  | .finallyBlock => form "Finally" []
  | .arith op args => form "Arith" [("op", .text op.tag), ("args", .ofTexts args)]
where
  /-- An object that begins with the name of its form. -/
  form (name : String) (fields : List (String × Json)) : Json :=
    .object (("action", .text name) :: fields)

/-- The dump of a statement. -/
def Statement.dump : Statement → Json
  | .line content =>
      .object [("type", .text "Line"), ("action", content.action.dump),
        ("state", .text content.state.tag), ("pictograph", .ofText? content.pictograph),
        ("line", .nat content.line)]
  | .block name state =>
      .object [("type", .text "Block"), ("name", .text name), ("state", .text state.tag)]
  | .blockEnd state pictograph =>
      .object [("type", .text "BlockEnd"), ("state", .text state.tag),
        ("pictograph", .ofText? pictograph)]
  | .arrow edge =>
      .object [("type", .text "Arrow"), ("from", .text edge.source), ("to", .text edge.target),
        ("direction", .text edge.direction.tag), ("state", .text edge.state.tag)]

/-- The dump of a segment. -/
def Segment.dump (segment : Segment) : Json :=
  .object [("stmts", .array (segment.statements.map Statement.dump))]

/-- The dump of a flow. -/
def Flow.dump (flow : Flow) : Json :=
  .object [("segments", .array (flow.segments.map Segment.dump))]

/-- The dump of a program. -/
def Program.dump (program : Program) : Json :=
  .object [("flows", .array (program.flows.map Flow.dump))]

/-- The dump of a program as a text. -/
def Program.toJson (program : Program) : String := program.dump.pretty

end LineScript
