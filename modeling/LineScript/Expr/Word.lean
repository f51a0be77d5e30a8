import LineScript.Expr.Basic
import LineScript.Text.Letter
import LineScript.Text.Numeral
import LineScript.WordMap

/-!
# Single words as expressions

What one token means on its own: a literal, a variable, or the text that it spells.  The answer
depends on the context.  In the context of a *value* a word is a variable only if it is a known
name; in the context of a *name* every identifier is one.
-/

namespace LineScript

/-- What bare words are read as. -/
inductive Context where
  /-- Every identifier is a variable. -/
  | name
  /-- Identifiers that are known names are variables, all other words are text. -/
  | value
  deriving DecidableEq, Repr, Inhabited

/-- Whether a word is a number literal. -/
def isNumericWord (word : String) : Bool := Text.isNumeric word.toList

/-- Whether a word can be a name: a letter or underscore, then letters, numbers and
underscores. -/
def isIdentifier (word : String) : Bool :=
  match word.toList with
  | [] => false
  | first :: rest =>
      (Text.isLetter first || first == '_') &&
        rest.all fun c => Text.isLetterOrNumber c || c == '_'

/-- The text between the double backticks of a token, which is never empty. -/
def quotedText? (word : String) : Option String :=
  match word.toList with
  | '\x60' :: '\x60' :: rest =>
      match rest.reverse with
      | '\x60' :: '\x60' :: inside =>
          if inside.isEmpty then none else some (String.ofList inside.reverse)
      | _ => none
  | _ => none

/-- The literal that a word is. -/
def literal? (word : String) : Option Expr :=
  if isTrueWord word then some (.bool true)
  else if isFalseWord word then some (.bool false)
  else if isNoneWord word then some .none
  else match quotedText? word with
    | some text => some (.str text true)
    | none => if isNumericWord word then some (.number word) else none

/-- What a word means that is no literal. -/
def resolveWord (known : KnownNames) (context : Context) (word : String) : Expr :=
  if isIdentifier word && (context == .name || known.contains word) then .ident word
  else .bare word

end LineScript
