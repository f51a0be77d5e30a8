import LineScript.Expr.Read

/-!
# Reading by a cursor

Expressions can be read by a cursor that moves over a list of tokens which stays as it is.  The
levels of the grammar are procedures here that call each other; nothing bounds how often or how
deep.  So that they are functions at all, a run is cut off where calls nest deeper than a number
(`run`), and what was cut off shows in the outcome.  So does every fault: a part of the list that is
out of its range, or a count that would fall below zero.

The cursor goes back in one place only: a colon behind the first expression in brackets makes them a
dictionary, whose first key is read again.  Parentheses are read by a cursor of their own over the
tokens between them.

## Outcomes

An outcome is an expression or an error, together with the position of the cursor, or one of the
faults above.  Faults are kept apart from errors, which are part of the language: a source may well
lead to an error, but no source may lead to a fault.  So that nothing is assumed here about when
there is none, all procedures check their ranges (`slice?`, `matching?`), and that the checks never
fail is left to be proved.

`session` runs one expression after the other over the same tokens, behind an error as well, and
`GoesForward` says of its outcomes that the cursor stays in range and never goes back between them.
-/

namespace LineScript.Cursor

/-! ## Outcomes -/

/-- What a call comes to, and where the cursor is then. -/
inductive Outcome (α : Type) where
  | ok (value : α) (position : Nat)
  | error (cause : ExprError) (position : Nat)
  /-- Something was out of range. -/
  | fault
  /-- The run was cut off before the call came to its end. -/
  | unfinished
  deriving Repr, Inhabited

namespace Outcome

variable {α β : Type}

/-- Goes on from where a call that was successful has left the cursor. -/
def andThen (outcome : Outcome α) (next : α → Nat → Outcome β) : Outcome β :=
  match outcome with
  | .ok value position => next value position
  | .error cause position => .error cause position
  | .fault => .fault
  | .unfinished => .unfinished

/-- Changes what a successful call has read. -/
def map (f : α → β) (outcome : Outcome α) : Outcome β :=
  outcome.andThen fun value position => .ok (f value) position

/-- Where the cursor is, if the call has come to an end. -/
def position? : Outcome α → Option Nat
  | .ok _ position | .error _ position => some position
  | .fault | .unfinished => none

end Outcome

/-! ## Procedures -/

/-- The levels that combine from the left. -/
inductive Level where
  | disjunction | conjunction | sum | product
  deriving DecidableEq, Repr

/-- The procedures that read expressions, with what they are given besides the cursor. -/
inductive Procedure where
  | chain (level : Level) (context : Context)
  /-- Operators and operands behind a first operand. -/
  | chainRest (level : Level) (context : Context) (left : Expr)
  | negation (context : Context)
  | comparison (context : Context)
  | signed (context : Context)
  | indexed (context : Context)
  /-- Indices behind an expression. -/
  | indices (container : Expr)
  | primary (context : Context)
  /-- Elements of a list behind earlier ones. -/
  | elements (earlier : List Expr)
  /-- Entries of a dictionary behind earlier ones. -/
  | entries (earlier : List (Expr × Expr))
  /-- Arguments of a call behind earlier ones, up to the last token. -/
  | arguments (func : String) (earlier : List Expr)

/-- Reading an expression of any level. -/
def Procedure.expression (context : Context) : Procedure := .chain .disjunction context

namespace Level

/-- The operator that a word spells on a level. -/
def operator? : Level → String → Option BinaryOp
  | .disjunction => fun word => if isOrWord word then some .or else none
  | .conjunction => fun word => if isAndWord word then some .and else none
  | .sum => BinaryOp.ofSumWord?
  | .product => BinaryOp.ofProductWord?

/-- What reads the operands of a level. -/
def operand : Level → Context → Procedure
  | .disjunction => .chain .conjunction
  | .conjunction => .negation
  | .sum => .chain .product
  | .product => .signed

end Level

/-- How procedures are called: with the tokens, the procedure and the place of the cursor. -/
abbrev Caller := List String → Procedure → Nat → Outcome Expr

/-! ## Tokens in range -/

/-- Steps over the bracket that closes a literal or an index. -/
def closing (tokens : List String) (bracket : Bracket) (position : Nat) : Outcome Unit :=
  if tokens[position]? = some "]" then .ok () (position + 1)
  else .error (.unclosed bracket tokens[position]?) position

/-- The tokens from one place up to another, if both are in range and in order. -/
def slice? (tokens : List String) (first last : Nat) : Option (List String) :=
  if first ≤ last ∧ last ≤ tokens.length then some ((tokens.take last).drop first) else none

/-- The place of the parenthesis that closes the first of some tokens, which stand from a position
on, or `some none` if nothing closes it.  Parentheses are counted; there is no answer at all if the
count would fall below zero. -/
def matching? (position depth : Nat) : List String → Option (Option Nat)
  | [] => some none
  | token :: rest =>
      if token = "(" then matching? (position + 1) (depth + 1) rest
      else if token = ")" then
        match depth with
        | 0 => none
        | 1 => some (some position)
        | depth + 2 => matching? (position + 1) (depth + 1) rest
      else matching? (position + 1) depth rest

/-! ## What each procedure does -/

section

variable (known : KnownNames) (call : Caller) (tokens : List String)

/-- Reads all tokens as one expression, or as a call if they are a name and values. -/
def whole (context : Context) : Outcome (Option Expr) :=
  (call tokens (.expression context) 0).andThen fun expr position =>
    if tokens.length ≤ position then .ok (some expr) position
    else match expr with
      | .ident func => (call tokens (.arguments func []) position).map some
      | _ => .ok none position

/-- Reads all tokens, where only misplaced parentheses are an error. -/
def wholeOrNone (context : Context) : Outcome (Option Expr) :=
  if tokens.isEmpty then .ok none 0
  else match whole call tokens context with
    | .error .misplacedParentheses position => .error .misplacedParentheses position
    | .error _ position => .ok none position
    | outcome => outcome

/-- Reads the tokens between parentheses, the first of which is at the cursor. -/
def group (opening : Nat) : Outcome Expr :=
  match matching? opening 0 (tokens.drop opening) with
  | none => .fault
  | some none => .error .unmatchedParenthesis opening
  | some (some closing) =>
      -- nothing is between the parentheses
      if closing ≤ opening + 1 then .error .emptyParentheses opening
      else match slice? tokens (opening + 1) closing with
        | none => .fault
        | some inside =>
            match wholeOrNone call inside .name with
            | .ok none _ => .error .invalidParentheses (closing + 1)
            | .ok (some expr) _ =>
                if expr.isCombination then .ok expr (closing + 1)
                else .error .misplacedParentheses (closing + 1)
            | .error cause _ => .error cause (closing + 1)
            | .fault => .fault
            | .unfinished => .unfinished

/-- Reads the inside of brackets, which are a dictionary if a colon comes behind the first
expression. -/
def bracketed (position : Nat) : Outcome Expr :=
  if tokens[position]? = some "]" then .ok (.list []) (position + 1)
  else (call tokens (.expression .value) position).andThen fun first between =>
    -- the first key is read again with the entries
    if tokens[between]?.any isColon then call tokens (.entries []) position
    else call tokens (.elements [first]) between

/-- Reads the inside of the brackets behind a map word. -/
def dictionary (position : Nat) : Outcome Expr :=
  if tokens[position]? = some "]" then .ok (.dict []) (position + 1)
  else call tokens (.entries []) position

/-- Reads a literal, a group, a list, a dictionary or a word. -/
def primary (context : Context) (position : Nat) : Outcome Expr :=
  match tokens[position]? with
  | none => .error .endOfExpression position
  | some token =>
      match literal? token with
      | some expr => .ok expr (position + 1)
      | none =>
          if token = "(" then group call tokens position
          else if isMapWord token && tokens[position + 1]? = some "[" then
            dictionary call tokens (position + 2)
          else if token = "[" then bracketed call tokens (position + 1)
          else .ok (resolveWord known context token) (position + 1)

/-- What a procedure does at the cursor, given how it calls others. -/
def perform (position : Nat) : Procedure → Outcome Expr
  | .chain level context =>
      (call tokens (level.operand context) position).andThen fun left =>
        call tokens (.chainRest level context left)
  | .chainRest level context left =>
      match tokens[position]?.bind level.operator? with
      | none => .ok left position
      | some op => (call tokens (level.operand context) (position + 1)).andThen fun right =>
          call tokens (.chainRest level context (.binary op left right))
  | .negation context =>
      if tokens[position]?.any isNotWord then
        (call tokens (.negation context) (position + 1)).map (.unary .not)
      else call tokens (.comparison context) position
  | .comparison context =>
      (call tokens (.chain .sum context) position).andThen fun left between =>
        match tokens[between]?.bind BinaryOp.ofComparisonWord? with
        | none => .ok left between
        | some op => (call tokens (.chain .sum .value) (between + 1)).map (.binary op left)
  | .signed context =>
      match tokens[position]?.bind UnaryOp.ofSign? with
      | some op =>
          -- a sign in front of nothing is a word
          if position + 1 < tokens.length then
            (call tokens (.signed context) (position + 1)).map (.unary op)
          else call tokens (.indexed context) position
      | none => call tokens (.indexed context) position
  | .indexed context =>
      (call tokens (.primary context) position).andThen fun container =>
        call tokens (.indices container)
  | .indices container =>
      if tokens[position]? = some "[" then
        (call tokens (.expression .value) (position + 1)).andThen fun index between =>
          (closing tokens .index between).andThen fun _ =>
            call tokens (.indices (.index container index))
      else .ok container position
  | .primary context => primary known call tokens context position
  | .elements earlier =>
      if tokens[position]? = some "|" then
        (call tokens (.expression .value) (position + 1)).andThen fun element =>
          call tokens (.elements (earlier ++ [element]))
      else (closing tokens .list position).map fun _ => .list earlier
  | .entries earlier =>
      (call tokens (.expression .value) position).andThen fun key between =>
        if tokens[between]?.any isColon then
          (call tokens (.expression .value) (between + 1)).andThen fun value behind =>
            if tokens[behind]? = some "|" then
              call tokens (.entries (earlier ++ [(key, value)])) (behind + 1)
            else (closing tokens .dict behind).map fun _ => .dict (earlier ++ [(key, value)])
        else .error .missingColon between
  | .arguments func earlier =>
      if tokens.length ≤ position then .ok (.call func earlier) position
      else (call tokens (.expression .value) position).andThen fun arg =>
        call tokens (.arguments func (earlier ++ [arg]))

end

/-! ## Runs -/

/-- A run of a procedure in which calls nest less deep than `depth`. -/
def run (known : KnownNames) : (depth : Nat) → Caller
  | 0, _, _, _ => .unfinished
  | depth + 1, tokens, procedure, position =>
      perform known (run known depth) tokens position procedure

/-- The outcomes of reading one expression after the other, in some contexts.  After an error
reading goes on where the cursor is. -/
def session (known : KnownNames) (depth : Nat) (tokens : List String) :
    List Context → Nat → List (Outcome Expr)
  | [], _ => []
  | context :: contexts, position =>
      let outcome := run known depth tokens (.expression context) position
      outcome :: outcome.position?.elim [] (session known depth tokens contexts)

end LineScript.Cursor
