import LineScript.Expr.Reading
import LineScript.Expr.Word

/-!
# Reading expressions

The grammar, from the loosest level to the tightest:

    disjunction := conjunction (or conjunction)*
    conjunction := negation (and negation)*
    negation    := not negation | comparison
    comparison  := sum (compare sum)?
    sum         := product (("+" | "-") product)*
    product     := signed (("*" | "/") signed)*
    signed      := ("+" | "-") signed | indexed
    indexed     := primary ("[" disjunction "]")*
    primary     := literal | "(" combination ")" | list | dict | word

## Strategy

The levels are readers over the next tighter level, so none of them is recursive in the grammar.
Only brackets and parentheses lead back to the loosest level, and there the tokens have become
fewer.  Every level therefore takes the reader for what stands inside of brackets as an argument
`inner`, and `readNested` ties the knot: its first argument bounds how deep brackets may nest, and
the number of tokens is always deep enough.

The contexts change at four places: the right side of a comparison and everything between
brackets is a value, while the inside of parentheses is read in the context of names.
-/

namespace LineScript

/-- The readers for expressions inside of brackets. -/
abbrev InnerReader := Context → Reader Expr

/-! ## Chains of operators -/

/-- Reads operators and operands after a first operand and combines them from the left.  The
number bounds how many operators may come. -/
def readChainRest (operator : String → Option BinaryOp) (operand : Reader Expr) :
    Nat → Expr → Reader Expr
  | 0, left, tokens => .ok left tokens
  | _ + 1, left, [] => .ok left []
  | bound + 1, left, token :: rest =>
      match operator token with
      | none => .ok left (token :: rest)
      | some op => (operand rest).andThen fun right after =>
          readChainRest operator operand bound (.binary op left right) after

/-- Reads one or more operands with operators between them. -/
def readChain (operator : String → Option BinaryOp) (operand : Reader Expr) : Reader Expr :=
  fun tokens => (operand tokens).andThen fun first rest =>
    readChainRest operator operand rest.length first rest

/-! ## Lists, dictionaries and indices -/

/-- Reads the bracket that closes a literal or an index. -/
def readClosing (bracket : Bracket) : Reader Unit
  | "]" :: rest => .ok () rest
  | tokens => .error (.unclosed bracket tokens.head?) tokens

/-- Reads items that each have a bar in front.  The number bounds how many may come. -/
def readMore {α : Type} (item : Reader α) : Nat → Reader (List α)
  | bound + 1, "|" :: rest => (item rest).andThen fun first after =>
      (readMore item bound after).map (first :: ·)
  | _, tokens => .ok [] tokens

/-- Reads one or more items with bars between them and the bracket after them. -/
def readItems {α : Type} (bracket : Bracket) (item : Reader α) : Reader (List α) :=
  fun tokens => (item tokens).andThen fun first rest =>
    (readMore item rest.length rest).andThen fun more after =>
      (readClosing bracket after).map fun _ => first :: more

/-- Reads a key, a colon and a value. -/
def readEntry (inner : InnerReader) : Reader (Expr × Expr) :=
  fun tokens => (inner .value tokens).andThen fun key rest =>
    match rest with
    | token :: after =>
        if isColon token then (inner .value after).map fun value => (key, value)
        else .error .missingColon rest
    | [] => .error .missingColon []

/-- Reads the entries of a dictionary and the bracket after them. -/
def readEntries (inner : InnerReader) : Reader Expr :=
  fun tokens => (readItems .dict (readEntry inner) tokens).map .dict

/-- Reads a dictionary after its map word and opening bracket. -/
def readDict (inner : InnerReader) : Reader Expr
  | "]" :: rest => .ok (.dict []) rest
  | tokens => readEntries inner tokens

/-- Reads a literal after its opening bracket: a colon after the first expression makes it a
dictionary. -/
def readBracketed (inner : InnerReader) : Reader Expr
  | "]" :: rest => .ok (.list []) rest
  | tokens => (inner .value tokens).andThen fun first rest =>
      if rest.head?.any isColon then readEntries inner tokens
      else (readMore (inner .value) rest.length rest).andThen fun more after =>
        (readClosing .list after).map fun _ => .list (first :: more)

/-- Reads the indices behind an expression.  The number bounds how many may come. -/
def readIndices (inner : InnerReader) : Nat → Expr → Reader Expr
  | bound + 1, container, "[" :: rest => (inner .value rest).andThen fun index after =>
      (readClosing .index after).andThen fun _ behind =>
        readIndices inner bound (.index container index) behind
  | _, container, tokens => .ok container tokens

/-! ## Parentheses -/

/-- Splits tokens at the `closing` token that closes one more than `depth` open ones. -/
def splitAtClosing (opening closing : String) (depth : Nat) :
    List String → Option (List String × List String)
  | [] => none
  | token :: rest =>
      let split (depth : Nat) := (splitAtClosing opening closing depth rest).map
        fun parts => (token :: parts.1, parts.2)
      if token = opening then split (depth + 1)
      else if token = closing then
        match depth with
        | 0 => some ([], rest)
        | depth + 1 => split depth
      else split depth

/-- Reads values until no token is left.  The number bounds how many may come. -/
def readArguments (inner : InnerReader) : Nat → Reader (List Expr)
  | bound + 1, token :: rest => (inner .value (token :: rest)).andThen fun first after =>
      (readArguments inner bound after).map (first :: ·)
  | _, tokens => .ok [] tokens

/-- Reads a whole token list as one expression, or as a call if it is a name and values after it.
`none` stands for a list that is neither.  Misplaced parentheses are the only error: every other
one only shows that the list is no expression. -/
def readAll (inner : InnerReader) (context : Context) (tokens : List String) :
    Except ExprError (Option Expr) :=
  let whole := (inner context tokens).andThen fun expr rest =>
    match rest, expr with
    | [], expr => .ok (some expr) []
    | rest, .ident func =>
        (readArguments inner rest.length rest).map fun args => some (.call func args)
    | rest, _ => .ok none rest
  match whole with
  | .ok expr? _ => .ok expr?
  | .error .misplacedParentheses _ => .error .misplacedParentheses
  | .error _ _ => .ok none

/-- Reads what stands after an opening parenthesis up to the one that closes it. -/
def readGroup (inner : InnerReader) : Reader Expr :=
  fun tokens =>
    match splitAtClosing "(" ")" 0 tokens with
    | none => .error .unmatchedParenthesis ("(" :: tokens)
    | some ([], _) => .error .emptyParentheses ("(" :: tokens)
    | some (inside, after) =>
        match readAll inner .name inside with
        | .error cause => .error cause after
        | .ok none => .error .invalidParentheses after
        | .ok (some expr) =>
            if expr.isCombination then .ok expr after else .error .misplacedParentheses after

/-! ## The levels -/

/-- Reads a literal, a group, a list, a dictionary or a word. -/
def readPrimary (inner : InnerReader) (known : KnownNames) (context : Context) : Reader Expr
  | [] => .error .endOfExpression []
  | token :: rest =>
      match literal? token with
      | some expr => .ok expr rest
      | none =>
          if token = "(" then readGroup inner rest
          else if isMapWord token && rest.head? = some "[" then readDict inner rest.tail
          else if token = "[" then readBracketed inner rest
          else .ok (resolveWord known context token) rest

/-- Reads a primary expression and the indices behind it. -/
def readIndexed (inner : InnerReader) (known : KnownNames) (context : Context) : Reader Expr :=
  fun tokens => (readPrimary inner known context tokens).andThen fun container rest =>
    readIndices inner rest.length container rest

/-- Reads signs and an operand.  A sign with nothing after it is a word. -/
def readSigned (operand : Reader Expr) : Reader Expr
  | sign :: next :: rest =>
      match UnaryOp.ofSign? sign with
      | some op => (readSigned operand (next :: rest)).map (.unary op)
      | none => operand (sign :: next :: rest)
  | tokens => operand tokens

/-- Reads a sum or a comparison of two of them; comparisons do not chain. -/
def readComparison (sum : Context → Reader Expr) (context : Context) : Reader Expr :=
  fun tokens => (sum context tokens).andThen fun left rest =>
    match rest with
    | [] => .ok left []
    | token :: after =>
        match BinaryOp.ofComparisonWord? token with
        | none => .ok left (token :: after)
        | some op => (sum .value after).map fun right => .binary op left right

/-- Reads negations and a comparison. -/
def readNegation (comparison : Reader Expr) : Reader Expr
  | [] => comparison []
  | token :: rest =>
      if isNotWord token then (readNegation comparison rest).map (.unary .not)
      else comparison (token :: rest)

/-- Reads factors with their operators. -/
def readProduct (inner : InnerReader) (known : KnownNames) (context : Context) : Reader Expr :=
  readChain BinaryOp.ofProductWord? (readSigned (readIndexed inner known context))

/-- Reads terms with their operators. -/
def readSum (inner : InnerReader) (known : KnownNames) (context : Context) : Reader Expr :=
  readChain BinaryOp.ofSumWord? (readProduct inner known context)

/-- Reads conditions joined by `and`. -/
def readConjunction (inner : InnerReader) (known : KnownNames) (context : Context) :
    Reader Expr :=
  readChain (fun word => if isAndWord word then some .and else none)
    (readNegation (readComparison (readSum inner known) context))

/-- Reads conditions joined by `or`: the loosest level. -/
def readDisjunction (inner : InnerReader) (known : KnownNames) (context : Context) :
    Reader Expr :=
  readChain (fun word => if isOrWord word then some .or else none)
    (readConjunction inner known context)

/-! ## The knot -/

/-- Reads an expression in which brackets nest less deep than `depth`. -/
def readNested (known : KnownNames) : (depth : Nat) → InnerReader
  | 0, _, tokens => .error .endOfExpression tokens
  | depth + 1, context, tokens => readDisjunction (readNested known depth) known context tokens

/-- Reads an expression from the start of a token list.  Each bracket takes a token, so that the
number of tokens bounds how deep they nest. -/
def readExpr (known : KnownNames) (context : Context) : Reader Expr :=
  fun tokens => readNested known tokens.length context tokens

/-- Reads a whole token list as one expression or call. -/
def readWhole (known : KnownNames) (context : Context) (tokens : List String) :
    Except ExprError (Option Expr) :=
  readAll (readExpr known) context tokens

end LineScript
