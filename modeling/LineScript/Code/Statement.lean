import LineScript.Code.Expr
import LineScript.Code.Settings
import LineScript.Expr.Word
import LineScript.Statement.Basic

/-!
# Code of statements

A line with an action becomes one line of code, whose text depends on nothing but the action and
the settings.  Where the line is indented to is not decided here.
-/

namespace LineScript

/-- Why there is no code for a statement. -/
inductive CodeError where
  | globalWithoutNames
  | arithArity (op : ArithOp) (found : Nat)
  deriving DecidableEq, Repr, Inhabited

/-- The wording of an error. -/
def CodeError.message : CodeError → String
  | .globalWithoutNames => "GLOBAL expects at least one name"
  | .arithArity op found =>
      (ActionWord.arith op).display ++ " expects 3 arguments: result left right, got " ++
        toString found

namespace Code

/-- The name of the helper function for assignments to elements. -/
def helperName : String := "_catapillar_index_set"

/-- A raw word as an operand of arithmetic. -/
def rawOperand (word : String) : String :=
  if word = "True" || isTrueWord word then "True"
  else if word = "False" || isFalseWord word then "False"
  else if word = "None" then "None"
  else if Text.isFloat word.toList || isIdentifier word then word
  else doubleQuoted word

/-- The code of an assigned value: certain names become calls when they are the whole of it. -/
def assignedCode (settings : Settings) (value : Expr) : String :=
  match value with
  | .ident word | .str word false =>
      if settings.isZeroArgCall word then word ++ "()" else value.code
  | _ => value.code

end Code

open Code in
/-- The code of an action, without indentation. -/
def Action.code (settings : Settings) : Action → Except CodeError String
  | .set name value => .ok (name ++ " = " ++ assignedCode settings value)
  | .indexSet container index value =>
      if settings.runtimeHelpers then
        .ok (helperName ++ "(" ++ ", ".intercalate
          [singleQuoted container, container, index.code, value.code] ++ ")")
      else
        .ok (container ++ "[" ++ index.code ++ "] = " ++ value.code)
  | .print none => .ok "print()"
  | .print (some value) => .ok ("print(" ++ value.code ++ ")")
  | .call func args => .ok (func ++ "(" ++ ", ".intercalate (args.map Expr.code) ++ ")")
  | .define name params => .ok ("def " ++ name ++ "(" ++ ", ".intercalate params ++ "):")
  | .returnValue none => .ok "return"
  | .returnValue (some value) => .ok ("return " ++ value.code)
  | .ifBranch condition => .ok ("if " ++ condition.code ++ ":")
  | .elifBranch condition => .ok ("elif " ++ condition.code ++ ":")
  | .elseBranch => .ok "else:"
  | .whileLoop condition => .ok ("while " ++ condition.code ++ ":")
  | .forLoop var iterable => .ok ("for " ++ var ++ " in " ++ iterable.code ++ ":")
  | .breakLoop => .ok "break"
  | .continueLoop => .ok "continue"
  | .tryBlock => .ok "try:"
  | .exceptBlock none => .ok "except:"
  | .exceptBlock (some name) => .ok ("except " ++ settings.exceptionName name ++ ":")
  | .finallyBlock => .ok "finally:"
  | .pass => .ok "pass"
  | .global [] => .error .globalWithoutNames
  | .global names => .ok ("global " ++ ", ".intercalate names)
  | .arith op [result, left, right] =>
      .ok (result ++ " = " ++ rawOperand left ++ " " ++ op.symbol ++ " " ++ rawOperand right)
  | .arith op args => .error (.arithArity op args.length)

end LineScript
