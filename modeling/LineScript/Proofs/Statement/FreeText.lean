import LineScript.Proofs.Program.Parsed

/-!
# Free text

Words that are no expression are text, or the name of something, wherever a line takes values: where
it prints, returns, calls, assigns, or goes through an iterable.  Parentheses around a single value
are the only fault that such a line shows.

An assignment of an operation and two operands is the exception.  Each operand is one token, which
is read by itself and never taken for text, so that an operand that only begins an expression is a
fault of the line.  These operands are an opening bracket, an opening parenthesis and the words for
negation (`readToken_of_isUnfinished`, `exists_readToken`).

Main statement: values fail only by misplaced parentheses, assigned ones exactly if they have no
such operand (`onlyGrouping_of_values`).

## Strategy

`OnlyGrouping` says of the result of a reader that it is a value or the one failure.  It is kept by
everything that puts readers together (`OnlyGrouping.bind`, `OnlyGrouping.map`,
`OnlyGrouping.mapM`), so that only the innermost readers have to be looked at, which turn every
other failure into a text (`onlyGrouping_readWhole`).

A single token is different, since its failures come through.  What the levels of the grammar make
of one token is what the tightest makes of it, because no level finds a second token to go on with
(`readDisjunction_singleton`); only negation takes the token for itself.  So a token is unfinished
exactly if it is one of those that need another one behind them.
-/

namespace LineScript

variable {known : KnownNames} {context : Context} {inner : InnerReader} {words tokens : List String}

/-! ## Failures by misplaced parentheses -/

/-- A result that is there, or is missing because of misplaced parentheses and nothing else. -/
def OnlyGrouping {α : Type} (result : Except LineError α) : Prop :=
  ∀ cause, result = .error cause → ∀ span : Span, cause.at span = .grouping span

theorem onlyGrouping_ok {α : Type} (value : α) : OnlyGrouping (.ok value) := nofun

theorem onlyGrouping_pure {α : Type} (value : α) : OnlyGrouping (pure value) :=
  onlyGrouping_ok value

theorem onlyGrouping_misplaced {α : Type} :
    OnlyGrouping (.error (.expression .misplacedParentheses) : Except LineError α) := by
  intro cause hcause span
  cases hcause
  rfl

theorem not_onlyGrouping_error {α : Type} {cause : ExprError}
    (hcause : cause ≠ .misplacedParentheses) :
    ¬ OnlyGrouping (.error (.expression cause) : Except LineError α) := by
  intro hgrouping
  have hat : cause.at {} = .grouping {} := hgrouping _ rfl {}
  cases cause with
  | misplacedParentheses => exact hcause rfl
  | _ => cases hat

theorem OnlyGrouping.bind {α β : Type} {first : Except LineError α} {next : α → Except LineError β}
    (hfirst : OnlyGrouping first) (hnext : ∀ value, OnlyGrouping (next value)) :
    OnlyGrouping (first >>= next) := by
  intro cause hcause
  rcases bind_eq_error_iff.mp hcause with herror | ⟨value, -, herror⟩
  · exact hfirst cause herror
  · exact hnext value cause herror

theorem OnlyGrouping.map {α β : Type} {result : Except LineError α} (hresult : OnlyGrouping result)
    (f : α → β) : OnlyGrouping (result.map f) := by
  intro cause hcause
  apply hresult cause
  cases result with
  | ok value => cases hcause
  | error =>
      cases hcause
      rfl

theorem OnlyGrouping.mapM {α β : Type} {f : α → Except LineError β}
    (hf : ∀ value, OnlyGrouping (f value)) (values : List α) : OnlyGrouping (values.mapM f) := by
  induction values with
  | nil => exact onlyGrouping_ok []
  | cons value rest ih =>
      rw [List.mapM_cons]
      exact (hf value).bind fun first => ih.bind fun more => onlyGrouping_pure (first :: more)

/-! ## Readers with a fallback -/

/-- Every other error only shows that the tokens are no expression. -/
theorem eq_misplacedParentheses_of_readAll {cause : ExprError}
    (hread : readAll inner context tokens = .error cause) : cause = .misplacedParentheses := by
  unfold readAll at hread
  simp only at hread
  split at hread
  · cases hread
  · cases hread
    rfl
  · cases hread

theorem onlyGrouping_readWhole (known : KnownNames) (tokens : List String) (fallback : Expr) :
    OnlyGrouping (match readWhole known .value tokens with
      | .error cause => .error (.expression cause)
      | .ok (some expr) => .ok expr
      | .ok none => .ok fallback) := by
  split
  next cause hread =>
    rw [eq_misplacedParentheses_of_readAll hread]
    exact onlyGrouping_misplaced
  next => exact onlyGrouping_ok _
  next => exact onlyGrouping_ok _

theorem onlyGrouping_readValueOrName (words : List String) :
    OnlyGrouping (readValueOrName known words) :=
  onlyGrouping_readWhole known (exprTokens words) (.ident (joinWords words))

theorem onlyGrouping_readPrinted (words : List String) :
    OnlyGrouping (readPrinted known words) := by
  -- tokens that are no expression become a text
  have htokens (tokens : List String) (text : String) :
      OnlyGrouping (readPrintedTokens known tokens text) := by
    unfold readPrintedTokens
    split
    · exact onlyGrouping_ok _
    · exact onlyGrouping_misplaced
    · exact onlyGrouping_ok _
  unfold readPrinted
  split
  · exact onlyGrouping_ok _
  · split
    · exact onlyGrouping_ok _
    · exact (htokens _ _).map some
  · exact (htokens _ _).map some

/-! ## Operands -/

/-- Tokens that begin an expression and are none by themselves. -/
def isUnfinished (token : String) : Bool := token == "(" || token == "[" || isNotWord token

/-- A reading that fails, or leaves no token. -/
def Reading.IsFinal {α : Type} : Reading α → Prop
  | .ok _ rest => rest = []
  | .error _ _ => True

theorem readChain_of_isFinal (operator : String → Option BinaryOp) {operand : Reader Expr}
    (hfinal : (operand tokens).IsFinal) : readChain operator operand tokens = operand tokens := by
  unfold readChain
  cases hread : operand tokens with
  | error => rfl
  | ok expr rest =>
      rw [hread] at hfinal
      cases hfinal
      rfl

theorem readComparison_of_isFinal {sum : Context → Reader Expr}
    (hfinal : (sum context tokens).IsFinal) :
    readComparison sum context tokens = sum context tokens := by
  unfold readComparison
  cases hread : sum context tokens with
  | error => rfl
  | ok expr rest =>
      rw [hread] at hfinal
      cases hfinal
      rfl

theorem readDisjunction_of_isFinal {reading : Reading Expr} (hfinal : reading.IsFinal)
    (hread : readNegation (readComparison (readSum inner known) context) tokens = reading) :
    readDisjunction inner known context tokens = reading := by
  subst hread
  have hconjunction : readConjunction inner known context tokens =
      readNegation (readComparison (readSum inner known) context) tokens :=
    readChain_of_isFinal _ hfinal
  rw [readDisjunction, readChain_of_isFinal _ (hconjunction ▸ hfinal), hconjunction]

/-- A single token is read as it is at the tightest level, unless it is a negation of nothing. -/
theorem readDisjunction_singleton {token : String} (hnot : isNotWord token = false)
    {reading : Reading Expr} (hfinal : reading.IsFinal)
    (hread : readPrimary inner known context [token] = reading) :
    readDisjunction inner known context [token] = reading := by
  subst hread
  -- at the end of the tokens no level goes on
  have hindexed : readIndexed inner known context [token] =
      readPrimary inner known context [token] := by
    unfold readIndexed
    cases hread : readPrimary inner known context [token] with
    | error => rfl
    | ok expr rest =>
        rw [hread] at hfinal
        cases hfinal
        rfl
  have hsigned : readSigned (readIndexed inner known context) [token] =
      readPrimary inner known context [token] := hindexed
  have hproduct : readProduct inner known context [token] =
      readPrimary inner known context [token] := by
    rw [readProduct, readChain_of_isFinal _ (hsigned ▸ hfinal), hsigned]
  have hsum : readSum inner known context [token] = readPrimary inner known context [token] := by
    rw [readSum, readChain_of_isFinal _ (hproduct ▸ hfinal), hproduct]
  refine readDisjunction_of_isFinal hfinal ?_
  rw [readNegation, hnot, if_neg Bool.false_ne_true, readComparison_of_isFinal (hsum ▸ hfinal),
    hsum]

/-- A token that opens no bracket is read by itself. -/
theorem exists_readPrimary_singleton {token : String} (hgroup : token ≠ "(")
    (hbracket : token ≠ "[") : ∃ expr, readPrimary inner known context [token] = .ok expr [] := by
  unfold readPrimary
  cases hliteral : literal? token with
  | some expr => exact ⟨expr, by simp [hliteral]⟩
  | none => simp [hliteral, hgroup, hbracket]

theorem readToken_of_error {token : String} {cause : ExprError} {rest : List String}
    (hread : readDisjunction (readNested known 0) known .value [token] = .error cause rest) :
    readToken known token = .error (.expression cause) := by
  have hexpr : readExpr known .value [token] = .error cause rest := hread
  rw [readToken, hexpr]

theorem readToken_of_ok {token : String} {expr : Expr} {rest : List String}
    (hread : readDisjunction (readNested known 0) known .value [token] = .ok expr rest) :
    readToken known token = .ok expr := by
  have hexpr : readExpr known .value [token] = .ok expr rest := hread
  rw [readToken, hexpr]

/-- An operand that only begins an expression is a fault, and no misplaced group. -/
theorem readToken_of_isUnfinished (known : KnownNames) {token : String}
    (hunfinished : isUnfinished token = true) :
    ∃ cause, readToken known token = .error (.expression cause) ∧
      cause ≠ .misplacedParentheses := by
  simp only [isUnfinished, Bool.or_eq_true, beq_iff_eq] at hunfinished
  rcases hunfinished with (rfl | rfl) | hnot
  · -- nothing closes the parenthesis
    have hgroup : readPrimary (readNested known 0) known .value ["("] =
        .error .unmatchedParenthesis ["("] := rfl
    exact ⟨_, readToken_of_error (readDisjunction_singleton rfl trivial hgroup), nofun⟩
  · -- no element follows the bracket
    have hbracket : readPrimary (readNested known 0) known .value ["["] =
        .error .endOfExpression [] := rfl
    exact ⟨_, readToken_of_error (readDisjunction_singleton rfl trivial hbracket), nofun⟩
  · have hnegation : readNegation (readComparison (readSum (readNested known 0) known) .value)
        [token] = .error .endOfExpression [] := by
      rw [readNegation, if_pos hnot]
      rfl
    exact ⟨_, readToken_of_error (readDisjunction_of_isFinal trivial hnegation), nofun⟩

/-- Every other operand is an expression. -/
theorem exists_readToken (known : KnownNames) {token : String}
    (hfinished : isUnfinished token = false) :
    ∃ expr, readToken known token = .ok expr := by
  simp only [isUnfinished, Bool.or_eq_false_iff, beq_eq_false_iff_ne] at hfinished
  obtain ⟨⟨hgroup, hbracket⟩, hnot⟩ := hfinished
  obtain ⟨expr, hprimary⟩ := exists_readPrimary_singleton hgroup hbracket
  exact ⟨expr, readToken_of_ok (readDisjunction_singleton hnot rfl hprimary)⟩

/-! ## Assigned values -/

/-- An operation in front of two operands, one of which only begins an expression. -/
def HasUnfinishedOperand (tokens : List String) : Prop :=
  ∃ word left right, tokens = [word, left, right] ∧ (arithOp? word).isSome = true ∧
    (isUnfinished left = true ∨ isUnfinished right = true)

theorem onlyGrouping_operation_iff (known : KnownNames) (op : BinaryOp) (left right : String) :
    OnlyGrouping (do
      let first ← readToken known left
      let second ← readToken known right
      return Expr.binary op first second) ↔
      ¬ (isUnfinished left = true ∨ isUnfinished right = true) := by
  cases hleft : isUnfinished left with
  | true =>
      obtain ⟨cause, hread, hcause⟩ := readToken_of_isUnfinished known hleft
      rw [hread]
      exact iff_of_false (not_onlyGrouping_error hcause) (by simp)
  | false =>
      -- the first operand is read, so the second one decides
      obtain ⟨first, hfirst⟩ := exists_readToken known hleft
      rw [hfirst]
      cases hright : isUnfinished right with
      | true =>
          obtain ⟨cause, hread, hcause⟩ := readToken_of_isUnfinished known hright
          rw [hread]
          exact iff_of_false (not_onlyGrouping_error hcause) (by simp)
      | false =>
          obtain ⟨second, hsecond⟩ := exists_readToken known hright
          rw [hsecond]
          exact iff_of_true (onlyGrouping_pure _) (by simp)

/-- Assigned values are text where they are no expression, unless an operand is unfinished. -/
theorem onlyGrouping_readAssigned_iff (hne : tokens ≠ []) :
    OnlyGrouping (readAssigned known tokens) ↔ ¬ HasUnfinishedOperand tokens := by
  have hplain := onlyGrouping_readWhole known tokens (.bare (joinWords tokens))
  unfold readAssigned
  simp only
  split
  next => exact absurd rfl hne
  next word left right =>
    cases harith : arithOp? word with
    | none =>
        -- the first word names no operation: the tokens are taken for an expression or a text
        refine iff_of_true hplain ?_
        rintro ⟨_, _, _, heq, hop, -⟩
        cases heq
        rw [harith] at hop
        cases hop
    | some op =>
        -- three tokens, the first of which names an operation
        have hunfinished : HasUnfinishedOperand [word, left, right] ↔
            isUnfinished left = true ∨ isUnfinished right = true := by
          constructor
          · rintro ⟨_, _, _, heq, -, hoperand⟩
            cases heq
            exact hoperand
          · intro hoperand
            exact ⟨word, left, right, rfl, by rw [harith]; rfl, hoperand⟩
        rw [hunfinished]
        exact onlyGrouping_operation_iff known op.toBinaryOp left right
  next hlength =>
    refine iff_of_true hplain ?_
    rintro ⟨word, left, right, heq, -⟩
    exact hlength word left right heq

/-- **Free text never fails but by misplaced parentheses.**  What is printed, returned, given to a
function or gone through may be any words, and so may what is assigned, unless it is an operation
with an operand that only begins an expression. -/
theorem onlyGrouping_of_values (known : KnownNames) {words : List String} (hne : words ≠ []) :
    OnlyGrouping (readAction known .print words) ∧
      OnlyGrouping (readAction known .returnValue words) ∧
      (∀ func, OnlyGrouping (readAction known .call (func :: words))) ∧
      (∀ var inWord, isInWord inWord = true → stripTrailingColon words ≠ [] →
        OnlyGrouping (readAction known .forLoop (var :: inWord :: words))) ∧
      (OnlyGrouping (readAssigned known words) ↔ ¬ HasUnfinishedOperand words) := by
  refine ⟨?printed, ?returned, fun func => ?called, fun var inWord hin hiterable => ?iterable,
    onlyGrouping_readAssigned_iff hne⟩
  case printed =>
    exact (onlyGrouping_readPrinted words).bind fun _ => onlyGrouping_pure _
  case returned =>
    rw [readAction, if_neg (by simpa using hne)]
    exact (onlyGrouping_readValueOrName words).bind fun _ => onlyGrouping_pure _
  case called =>
    exact (OnlyGrouping.mapM (fun word => onlyGrouping_readValueOrName [word]) words).bind
      fun _ => onlyGrouping_pure _
  case iterable =>
    obtain ⟨first, rest, rfl⟩ := List.exists_cons_of_ne_nil hne
    rw [readAction, readFor, if_pos hin, if_neg (by simpa using hiterable)]
    exact (onlyGrouping_readValueOrName _).bind fun _ => onlyGrouping_pure _

/-- An operation is no fault of the words that are printed, and one of the words that are assigned
if its first operand is only a parenthesis. -/
theorem onlyGrouping_of_open_operand :
    OnlyGrouping (readAction .empty .print ["add", "(", "y"]) ∧
      ¬ OnlyGrouping (readAssigned .empty ["add", "(", "y"]) := by
  obtain ⟨hprinted, -, -, -, hassigned⟩ :=
    onlyGrouping_of_values .empty (List.cons_ne_nil "add" ["(", "y"])
  refine ⟨hprinted, fun hgrouping => hassigned.mp hgrouping ?_⟩
  exact ⟨"add", "(", "y", rfl, rfl, .inl rfl⟩

/-- An assigned operation whose operand is only a parenthesis fails with another error, although it
is text with one word more. -/
theorem parse_open_operand :
    parse "set x add ( y" = .error (.parse "unmatched '('" ⟨0, 13⟩) ∧
      (Failure.parse "unmatched '('" ⟨0, 13⟩).isGrouping = false ∧
      readAssigned .empty ["add", "(", "y", "z"] = .ok (.bare "add ( y z") := by
  refine ⟨?_, rfl, rfl⟩
  with_unfolding_all rfl

end LineScript
