import LineScript.Vocabulary

/-!
# Expressions

The expressions of the language as trees.  Number literals are kept as they are written.
-/

namespace LineScript

/-- An expression. -/
inductive Expr where
  /-- A number literal, as written. -/
  | number (text : String)
  | bool (value : Bool)
  | none
  /-- A variable. -/
  | ident (name : String)
  /-- A text, either `quoted` between double backticks or a bare word that is no variable. -/
  | str (text : String) (quoted : Bool)
  | binary (op : BinaryOp) (left right : Expr)
  | unary (op : UnaryOp) (operand : Expr)
  | list (elements : List Expr)
  | dict (entries : List (Expr × Expr))
  | index (container index : Expr)
  | call (func : String) (args : List Expr)
  deriving Repr, BEq, Inhabited

namespace Expr

/-- A text without quotes. -/
abbrev bare (text : String) : Expr := .str text false

/-- What parentheses may enclose: a combination of several operands. -/
def isCombination : Expr → Bool
  | .binary .. | .index .. | .call .. => true
  | _ => false

/-- The text of the outermost operator. -/
def operator? : Expr → Option String
  | .binary op _ _ => some op.symbol
  | .unary op _ => some op.symbol
  | _ => Option.none

end Expr

end LineScript
