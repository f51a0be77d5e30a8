import LineScript.Expr.Basic
import LineScript.Source.Span

/-!
# Statements

What a line of a program is: an action, a named block, the end of a block, or an arrow of the
program's flow graph.
-/

namespace LineScript

/-- What a line does, with the operands that it does it to. -/
inductive Action where
  | set (name : String) (value : Expr)
  /-- An assignment to an element of a list or dictionary. -/
  | indexSet (container : String) (index value : Expr)
  | print (value : Option Expr)
  | call (func : String) (args : List Expr)
  | define (name : String) (params : List String)
  | returnValue (value : Option Expr)
  | ifBranch (condition : Expr)
  | elifBranch (condition : Expr)
  | elseBranch
  | whileLoop (condition : Expr)
  | forLoop (var : String) (iterable : Expr)
  | breakLoop
  | continueLoop
  | tryBlock
  | exceptBlock (exception : Option String)
  | finallyBlock
  | pass
  | global (names : List String)
  /-- A line of arithmetic on raw words, whose number is only checked where code is made. -/
  | arith (op : ArithOp) (args : List String)
  deriving Repr, BEq, Inhabited

namespace Action

/-- The action word of an action. -/
def word : Action → ActionWord
  | .set .. | .indexSet .. => .set
  | .print _ => .print
  | .call .. => .call
  | .define .. => .define
  | .returnValue _ => .returnValue
  | .ifBranch _ => .ifBranch
  | .elifBranch _ => .elifBranch
  | .elseBranch => .elseBranch
  | .whileLoop _ => .whileLoop
  | .forLoop .. => .forLoop
  | .breakLoop => .breakLoop
  | .continueLoop => .continueLoop
  | .tryBlock => .tryBlock
  | .exceptBlock _ => .exceptBlock
  | .finallyBlock => .finallyBlock
  | .pass => .pass
  | .global _ => .global
  | .arith op _ => .arith op

/-- The names that an action makes variables for the lines after it. -/
def declares : Action → List String
  | .set name _ => [name]
  | .indexSet container _ _ => [container]
  | .forLoop var _ => [var]
  | .define name params => name :: params
  | _ => []

end Action

/-- A line with an action. -/
structure Line where
  action : Action
  state : LineState := .continued
  pictograph : Option String := none
  /-- The number of the line, counted from one. -/
  line : Nat := 0
  span : Span := {}
  deriving Repr, BEq, Inhabited

/-- An edge of the flow graph, written with a marker on one line. -/
structure Arrow where
  source : String
  target : String
  direction : ArrowDirection
  state : LineState
  deriving DecidableEq, Repr, Inhabited

/-- What a line of a program is. -/
inductive Statement where
  | line (content : Line)
  /-- The header of a named block. -/
  | block (name : String) (state : LineState)
  | blockEnd (state : LineState) (pictograph : Option String)
  | arrow (edge : Arrow)
  deriving Repr, BEq, Inhabited

namespace Statement

/-- The line of a statement with an action. -/
def line? : Statement → Option Line
  | .line content => some content
  | _ => none

/-- The arrow that a statement is. -/
def arrow? : Statement → Option Arrow
  | .arrow edge => some edge
  | _ => none

/-- The names that a statement makes variables for the lines after it. -/
def declares : Statement → List String
  | .line content => content.action.declares
  | .block name _ => [name]
  | _ => []

end Statement

end LineScript
