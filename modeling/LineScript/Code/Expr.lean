import LineScript.Code.Literal
import LineScript.Expr.Basic

/-!
# Code of expressions

Every operator is written with parentheses around it, so that the code does not depend on the
precedences of the language that it is written in.
-/

namespace LineScript

mutual

/-- The code of an expression. -/
def Expr.code : Expr → String
  | .number text => text
  | .bool true => "True"
  | .bool false => "False"
  | .none => "None"
  | .ident name => name
  | .str text _ => Code.doubleQuoted text
  | .binary op left right => "(" ++ left.code ++ " " ++ op.symbol ++ " " ++ right.code ++ ")"
  | .unary .not operand => "(not " ++ operand.code ++ ")"
  | .unary op operand => "(" ++ op.symbol ++ operand.code ++ ")"
  | .list elements => "[" ++ ", ".intercalate (Expr.codes elements) ++ "]"
  | .dict entries => "\x7b" ++ ", ".intercalate (Expr.entryCodes entries) ++ "\x7d"
  | .index container position => container.code ++ "[" ++ position.code ++ "]"
  | .call func args => func ++ "(" ++ ", ".intercalate (Expr.codes args) ++ ")"

/-- The codes of expressions. -/
def Expr.codes : List Expr → List String
  | [] => []
  | expr :: rest => expr.code :: Expr.codes rest

/-- The codes of the entries of a dictionary.  A name as a key stands for its spelling. -/
def Expr.entryCodes : List (Expr × Expr) → List String
  | [] => []
  | (.ident name, value) :: rest =>
      (Code.doubleQuoted name ++ ": " ++ value.code) :: Expr.entryCodes rest
  | (key, value) :: rest => (key.code ++ ": " ++ value.code) :: Expr.entryCodes rest

end

theorem Expr.codes_eq_map (exprs : List Expr) : Expr.codes exprs = exprs.map Expr.code := by
  induction exprs with
  | nil => rfl
  | cons expr rest ih => simp [Expr.codes, ih]

end LineScript
