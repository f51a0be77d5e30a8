import LineScript.Expr.Read
import LineScript.Expr.Tokens
import LineScript.Statement.Basic

/-!
# The operands of statements

How the words after an action are read as values.  Most of these readers never fail on words that
are no expression: such words are text, or the name of something.  Only misplaced parentheses are
never taken for text.
-/

namespace LineScript

/-- Why a line is no statement. -/
inductive LineError where
  | expression (cause : ExprError)
  | emptyCondition
  | invalidCondition (text : String)
  | setWithoutArguments
  | setWithoutValue
  | invalidIndex (text : String)
  | incompleteFor
  | forWithoutIn (found : String)
  | forWithoutIterable
  | defWithoutName
  | callWithoutName
  | unknownAction (word : String)
  | headerWithoutName
  | severalArrows
  | arrowWithoutTarget
  deriving DecidableEq, Repr, Inhabited

/-- The wording of an error. -/
def LineError.message : LineError → String
  | .expression cause => cause.message
  | .emptyCondition => "empty condition"
  | .invalidCondition text => "cannot parse condition: " ++ text
  | .setWithoutArguments => "SET expects arguments"
  | .setWithoutValue => "SET missing value"
  | .invalidIndex text => "invalid index: " ++ text
  | .incompleteFor => "FOR expects: variable IN iterable"
  | .forWithoutIn found => "FOR expects IN keyword, got '" ++ found ++ "'"
  | .forWithoutIterable => "FOR is missing its iterable"
  | .defWithoutName => "DEF expects a function name"
  | .callWithoutName => "CALL expects a function name"
  | .unknownAction word => "unknown action '" ++ word ++ "'"
  | .headerWithoutName => "block header without a name"
  | .severalArrows => "only one arrow per line is supported"
  | .arrowWithoutTarget => "arrow is missing its target"

/-! ## Trailing colons -/

/-- A word without its last character, if that is a colon. -/
def withoutColon? (word : String) : Option String :=
  if word.toList.getLast? = some ':' then some (String.ofList word.toList.dropLast) else none

/-- A word without all the colons at its end. -/
def withoutColons (word : String) : String :=
  String.ofList (word.toList.reverse.dropWhile (· == ':')).reverse

/-- Words without one colon at the end of the last of them; a word that is only a colon goes. -/
def stripTrailingColon (words : List String) : List String :=
  match words.getLast?.bind withoutColon? with
  | none => words
  | some last => if last.isEmpty then words.dropLast else words.dropLast ++ [last]

/-! ## Values -/

/-- Reads words as one expression or call, if they are one. -/
def readWords (known : KnownNames) (context : Context) (words : List String) :
    Except ExprError (Option Expr) :=
  readWhole known context (exprTokens words)

/-- Reads a single token as a value. -/
def readToken (known : KnownNames) (token : String) : Except LineError Expr :=
  match readExpr known .value [token] with
  | .ok expr _ => .ok expr
  | .error cause _ => .error (.expression cause)

/-- Reads words as a value; words that are no expression name something. -/
def readValueOrName (known : KnownNames) (words : List String) : Except LineError Expr :=
  match readWords known .value words with
  | .error cause => .error (.expression cause)
  | .ok (some expr) => .ok expr
  | .ok none => .ok (.ident (joinWords words))

/-- Reads the condition of a branch or loop. -/
def readCondition (known : KnownNames) (args : List String) : Except LineError Expr :=
  let words := stripTrailingColon args
  if words.isEmpty then .error .emptyCondition
  else match readWords known .value words with
    | .error cause => .error (.expression cause)
    | .ok (some expr) => .ok expr
    | .ok none => .error (.invalidCondition (joinWords words))

/-- The operation that a word names in front of two operands. -/
def arithOp? (word : String) : Option ArithOp :=
  match ActionWord.ofSpelling? word with
  | some (.arith op) => some op
  | _ => none

/-- Reads the tokens of an assigned value: an operation before its two operands, or an expression,
or text. -/
def readAssigned (known : KnownNames) (tokens : List String) : Except LineError Expr :=
  let plain := match readWhole known .value tokens with
    | .error cause => .error (.expression cause)
    | .ok (some expr) => .ok expr
    | .ok none => .ok (.bare (joinWords tokens))
  match tokens with
  | [] => .error .setWithoutValue
  | [word, left, right] =>
      match arithOp? word with
      | none => plain
      | some op => do
          let left ← readToken known left
          let right ← readToken known right
          return .binary op.toBinaryOp left right
  | _ => plain

/-- What a single token is when it is printed, if it is a literal or a name. -/
def printedWord? (known : KnownNames) (token : String) : Option Expr :=
  if isTrueWord token then some (.bool true)
  else if isFalseWord token then some (.bool false)
  else if isNoneWord token then some .none
  else if isNumericWord token then some (.number token)
  else if isIdentifier token then some (resolveWord known .value token)
  else none

/-- Reads tokens as a printed expression; `text` is what they are otherwise. -/
def readPrintedTokens (known : KnownNames) (tokens : List String) (text : String) :
    Except LineError Expr :=
  match readExpr known .value tokens with
  | .ok expr [] => .ok expr
  | .error .misplacedParentheses _ => .error (.expression .misplacedParentheses)
  | _ => .ok (.bare text)

/-- Reads what is printed; without tokens that is an empty line. -/
def readPrinted (known : KnownNames) (args : List String) : Except LineError (Option Expr) :=
  match exprTokens args with
  | [] => .ok none
  | [token] =>
      match printedWord? known token with
      | some expr => .ok (some expr)
      | none => (readPrintedTokens known [token] (joinWords args)).map some
  | tokens => (readPrintedTokens known tokens (joinWords args)).map some

end LineScript
