import LineScript.Expr.Basic

/-!
# Readings

A reader takes a list of tokens and either reads something from its start or fails.  In both cases
it says which tokens are left: a reader that has failed stands where it noticed the fault, and
reading may go on from there.
-/

namespace LineScript

/-- The brackets that a token list may leave open. -/
inductive Bracket where
  | index | list | dict
  deriving DecidableEq, Repr, Inhabited

/-- Why tokens are not an expression. -/
inductive ExprError where
  | endOfExpression
  | emptyParentheses
  | unmatchedParenthesis
  | invalidParentheses
  /-- Parentheses enclose something that is no combination. -/
  | misplacedParentheses
  | missingColon
  /-- A bracket is not closed where it has to be; `found` is the token there. -/
  | unclosed (bracket : Bracket) (found : Option String)
  deriving DecidableEq, Repr, Inhabited

namespace ExprError

/-- The wording of an error. -/
def message : ExprError → String
  | .endOfExpression => "unexpected end of expression"
  | .emptyParentheses => "empty parentheses"
  | .unmatchedParenthesis => "unmatched '('"
  | .invalidParentheses => "invalid parenthesized expression"
  | .misplacedParentheses => "parentheses are only for expression grouping"
  | .missingColon => "expected ':' in dict entry"
  | .unclosed bracket found =>
      let place := match bracket with
        | .index => "index access"
        | .list => "list literal"
        | .dict => "dict literal"
      "expected ']' in " ++ place ++ ", found " ++
        match found with
        | some token => "'" ++ token ++ "'"
        | none => "end of expression"

end ExprError

/-- What a reader makes of a token list, and the tokens that it leaves. -/
inductive Reading (α : Type) where
  | ok (value : α) (rest : List String)
  | error (cause : ExprError) (rest : List String)
  deriving Repr, Inhabited

/-- A function that reads from the start of a token list. -/
abbrev Reader (α : Type) := List String → Reading α

namespace Reading

variable {α β : Type}

/-- The tokens that a reading leaves. -/
def rest : Reading α → List String
  | .ok _ rest => rest
  | .error _ rest => rest

/-- Goes on with what a successful reading leaves. -/
def andThen (reading : Reading α) (next : α → Reader β) : Reading β :=
  match reading with
  | .ok value rest => next value rest
  | .error cause rest => .error cause rest

/-- Changes what a successful reading has read. -/
def map (f : α → β) (reading : Reading α) : Reading β :=
  reading.andThen fun value rest => .ok (f value) rest

@[simp] theorem andThen_ok (value : α) (rest : List String) (next : α → Reader β) :
    (ok value rest).andThen next = next value rest := rfl

@[simp] theorem andThen_error (cause : ExprError) (rest : List String) (next : α → Reader β) :
    (error cause rest).andThen next = error cause rest := rfl

theorem andThen_eq_ok_iff {reading : Reading α} {next : α → Reader β} {value : β}
    {rest : List String} :
    reading.andThen next = .ok value rest ↔
      ∃ first between, reading = .ok first between ∧ next first between = .ok value rest := by
  cases reading <;> simp [and_assoc]

theorem map_eq_ok_iff {f : α → β} {reading : Reading α} {value : β} {rest : List String} :
    reading.map f = .ok value rest ↔ ∃ first, reading = .ok first rest ∧ f first = value := by
  cases reading with
  | ok first after =>
      simp only [map, andThen_ok, ok.injEq]
      exact ⟨fun ⟨hvalue, hrest⟩ => ⟨first, ⟨rfl, hrest⟩, hvalue⟩,
        fun ⟨_, ⟨hfirst, hrest⟩, hvalue⟩ => ⟨hfirst ▸ hvalue, hrest⟩⟩
  | error => simp [map]

end Reading

end LineScript
