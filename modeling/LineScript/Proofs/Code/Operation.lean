import LineScript.Compile
import LineScript.Proofs.Expr.Written
import LineScript.Proofs.Statement.Assignment
import LineScript.Proofs.Statement.FreeText
import LineScript.Proofs.Text.Parted

/-!
# Operations on lines of their own

An operation of arithmetic stands on a line of its own, or in an assignment as the value.  Both
forms name the same target, operation and operands, but they read the operands apart.  An assignment
reads each of them as an expression; the line of its own keeps its words, and what they are in the
code is decided only where the code is made (`Code.rawOperand`).

## Strategy

Operands that are read as constants are truth values, numerals, or the absent value
(`PrintedAs.of_readToken`).  For each kind the word in the code is computed and compared with the
code of the expression.  Two kinds come out differently: the words for the absent value are names
for the raw form, and numerals with underscores are no floating point texts, so that they are put in
quotes.

The target is one word.  Behind it come words without backticks, so that its tokens are its own
(`exprTokens_cons_of_not_mem`), and they may be a name or an element (`Target`).

Main statement: both forms show the same sign, and an operand alike exactly if it is neither of the
two (`code_of_operation`).
-/

namespace LineScript

variable {known : KnownNames} {word token : String} {expr : Expr}

/-! ## Constants -/

/-- Whether an expression is a truth value, a numeral or the absent value. -/
def Expr.isConstant : Expr → Bool
  | .bool _ | .none | .number _ => true
  | _ => false

theorem PrintedAs.of_literal? (hliteral : literal? token = some expr)
    (hconstant : expr.isConstant = true) : PrintedAs known token expr := by
  by_cases hword : token ∈ constantWords
  · -- a constant is exactly one of the three kinds of words
    have hwords : ∀ word ∈ constantWords, isTrueWord word = true ∨
        isTrueWord word = false ∧ (isFalseWord word = true ∨
          isFalseWord word = false ∧ isNoneWord word = true) := by
      decide
    rcases hwords token hword with htrue | ⟨htrue, hfalse | ⟨hfalse, hnone⟩⟩
    · obtain rfl : expr = .bool true := by simpa [literal?, htrue, eq_comm] using hliteral
      exact .trueWord htrue
    · obtain rfl : expr = .bool false := by simpa [literal?, htrue, hfalse, eq_comm] using hliteral
      exact .falseWord hfalse
    · obtain rfl : expr = .none := by
        simpa [literal?, htrue, hfalse, hnone, eq_comm] using hliteral
      exact .noneWord hnone
  · rw [literal?_of_not_mem_constantWords hword] at hliteral
    split at hliteral
    · cases hliteral
      cases hconstant
    · split at hliteral
      next hnumeric =>
        cases hliteral
        exact .number hnumeric
      next => cases hliteral

/-- A single token that is read as a constant is a word for it. -/
theorem PrintedAs.of_readToken (hread : readToken known token = .ok expr)
    (hconstant : expr.isConstant = true) : PrintedAs known token expr := by
  -- a token that ends too early would be an error
  have hfinished : isUnfinished token = false := by
    by_contra hunfinished
    obtain ⟨cause, herror, -⟩ := readToken_of_isUnfinished known (Bool.not_eq_false _ ▸ hunfinished)
    rw [hread] at herror
    cases herror
  simp only [isUnfinished, Bool.or_eq_false_iff, beq_eq_false_iff_ne] at hfinished
  obtain ⟨⟨hgroup, hbracket⟩, hnot⟩ := hfinished
  cases hliteral : literal? token with
  -- a literal is read as what it is, and a constant stands for itself
  | some literal =>
      have hprimary : readPrimary (readNested known 0) known .value [token] = .ok literal [] := by
        rw [readPrimary, hliteral]
      have hsame := readToken_of_ok (readDisjunction_singleton hnot rfl hprimary)
      rw [hread] at hsame
      cases hsame
      exact PrintedAs.of_literal? hliteral hconstant
  | none =>
      have hprimary : readPrimary (readNested known 0) known .value [token] =
          .ok (resolveWord known .value token) [] := by
        simp [readPrimary, hliteral, hgroup, hbracket]
      have hsame := readToken_of_ok (readDisjunction_singleton hnot rfl hprimary)
      rw [hread] at hsame
      cases hsame
      -- what is no literal is a name or a text, and no constant
      unfold resolveWord at hconstant
      split at hconstant <;> cases hconstant

/-! ## Words without quotes -/

/-- A word that is a token wherever blanks stand around it, and opens no quote. -/
structure IsUnquoted (word : String) : Prop where
  writable : Writable word
  backtick : '\x60' ∉ word.toList

theorem IsUnquoted.ofMarker?_eq_none (hunquoted : IsUnquoted word) :
    ArrowDirection.ofMarker? word = none := by
  obtain ⟨hwritable, hbacktick⟩ := hunquoted
  cases hwritable with
  | word hne hchars hsplit harrow => exact harrow
  | quoted hquotable => exact absurd (by simp) hbacktick

theorem IsUnquoted.of_ofSpelling? {action : ActionWord}
    (hword : ActionWord.ofSpelling? word = some action) : IsUnquoted word := by
  obtain ⟨hidentifier, -, -⟩ := ActionWord.isIdentifier_of_ofSpelling? hword
  refine ⟨.of_isIdentifier hidentifier, fun hbacktick => ?_⟩
  have hname := isNameCharacter_of_isIdentifier hidentifier _ hbacktick
  exact (plain_of_isNameCharacter hname).2.1 rfl

theorem PrintedAs.isUnquoted (hprinted : PrintedAs known word expr)
    (hconstant : expr.isConstant = true) : IsUnquoted word := by
  have hwords : ∀ other ∈ constantWords, '\x60' ∉ other.toList := by decide
  have hmem (hexpr : expr = .none ∨ ∃ value, expr = .bool value) : IsUnquoted word := by
    have hword := hprinted.mem_constantWords hexpr
    exact ⟨writable_of_mem (List.mem_append_left exprSigns hword), hwords word hword⟩
  cases hprinted with
  | number hnumeric =>
      refine ⟨.of_isNumericWord hnumeric, fun hbacktick => ?_⟩
      have hcharacter := Text.isNumeralCharacter_of_isNumeric hnumeric _ hbacktick
      exact absurd hcharacter (by decide)
  | trueWord | falseWord => exact hmem (.inr ⟨_, rfl⟩)
  | noneWord => exact hmem (.inl rfl)
  | quoted | ident => cases hconstant

/-! ## Raw operands -/

/-- The words for the absent value are names. -/
theorem rawOperand_of_isNoneWord (hnone : isNoneWord word = true) :
    Code.rawOperand word = word := by
  have hwords : ∀ word ∈ ["none", "无", "無"], isTrueWord word = false ∧ isFalseWord word = false ∧
      word ≠ "True" ∧ word ≠ "False" ∧ word ≠ "None" ∧ isIdentifier word = true := by
    decide +kernel
  obtain ⟨htrue, hfalse, hnot, hnot', hnot'', hidentifier⟩ :=
    hwords word (List.contains_iff_mem.mp hnone)
  simp [Code.rawOperand, htrue, hfalse, hnot, hnot', hnot'', hidentifier]

theorem not_mem_of_isNumericWord (hnumeric : isNumericWord word = true) :
    word ∉ "True" :: "False" :: "None" :: constantWords := by
  have hwords : ∀ other ∈ "True" :: "False" :: "None" :: constantWords,
      isNumericWord other = false := by
    decide
  intro hmem
  rw [hwords word hmem] at hnumeric
  cases hnumeric

/-- A number literal stays as it is, if it has no underscores. -/
theorem rawOperand_of_isNumericWord (hnumeric : isNumericWord word = true) :
    Code.rawOperand word = if '_' ∈ word.toList then Code.doubleQuoted word else word := by
  have hother := not_mem_of_isNumericWord hnumeric
  simp only [constantWords, List.mem_cons, List.not_mem_nil, or_false, not_or] at hother
  have hidentifier : isIdentifier word = false := by
    by_contra hidentifier
    rw [isNumericWord_eq_false_of_isIdentifier (Bool.not_eq_false _ ▸ hidentifier)] at hnumeric
    cases hnumeric
  have hoperand : Code.rawOperand word =
      if Text.isFloat word.toList then word else Code.doubleQuoted word := by
    simp [Code.rawOperand, isTrueWord, isFalseWord, hother, hidentifier]
  -- a numeral is a floating point text unless it has underscores
  have hfloat := Text.isFloat_eq_true_iff hnumeric
  by_cases hunderscore : '_' ∈ word.toList
  · rw [hoperand, if_neg fun h => hfloat.mp h hunderscore, if_pos hunderscore]
  · rw [hoperand, if_pos (hfloat.mpr hunderscore), if_neg hunderscore]

/-- A quoted number literal is none. -/
theorem doubleQuoted_ne_of_isNumericWord (hnumeric : isNumericWord word = true) :
    Code.doubleQuoted word ≠ word := by
  intro hquoted
  have hchars : word.toList = '"' :: (word.toList.flatMap Code.escapeDouble ++ ['"']) := by
    have htoList := congrArg String.toList hquoted
    rw [Code.doubleQuoted, String.toList_ofList] at htoList
    exact htoList.symm
  rw [isNumericWord, hchars] at hnumeric
  exact absurd (Text.head_of_isNumeric hnumeric) (by decide)

/-- A raw word is the code of the constant that it is read as, unless it is a word for the absent
value or a numeral with underscores. -/
theorem rawOperand_eq_code_iff (hprinted : PrintedAs known word expr)
    (hconstant : expr.isConstant = true) :
    Code.rawOperand word = expr.code ↔ isNoneWord word = false ∧ '_' ∉ word.toList := by
  have hbooleans : ∀ other ∈ ["true", "真", "false", "假", "偽"],
      isNoneWord other = false ∧ '_' ∉ other.toList := by
    decide
  cases hprinted with
  | trueWord hword =>
      have hmem : word ∈ ["true", "真"] := List.contains_iff_mem.mp hword
      refine iff_of_true (by simp [Code.rawOperand, hword, Expr.code]) ?_
      exact hbooleans word (List.mem_append_left ["false", "假", "偽"] hmem)
  | falseWord hword =>
      have hmem : word ∈ ["false", "假", "偽"] := List.contains_iff_mem.mp hword
      have hvalues : ∀ other ∈ ["false", "假", "偽"], isTrueWord other = false ∧ other ≠ "True" := by
        decide
      obtain ⟨htrue, hne⟩ := hvalues word hmem
      refine iff_of_true (by simp [Code.rawOperand, hword, htrue, hne, Expr.code]) ?_
      exact hbooleans word (List.mem_append_right ["true", "真"] hmem)
  -- the word goes into the code as a name
  | noneWord hword =>
      rw [rawOperand_of_isNoneWord hword, hword]
      refine iff_of_false ?_ (by simp)
      rintro rfl
      exact absurd hword (by decide)
  | number hnumeric =>
      have hother := not_mem_of_isNumericWord hnumeric
      have hnone : isNoneWord word = false := by
        by_contra hyes
        exact hother (mem_of_contains (by decide) (Bool.not_eq_false _ ▸ hyes))
      rw [rawOperand_of_isNumericWord hnumeric, hnone, Expr.code]
      by_cases hunderscore : '_' ∈ word.toList
      · -- in quotes it is a text, and no numeral
        simpa [hunderscore] using doubleQuoted_ne_of_isNumericWord hnumeric
      · simp [hunderscore]
  | quoted => cases hconstant
  | ident => cases hconstant

/-! ## Targets -/

/-- Tokens that name what is assigned to: a name, or an element of what a name stands for.  The
function is what becomes of the assigned value. -/
inductive Target (known : KnownNames) : List String → (Expr → Action) → Prop
  | name (name : String) : Target known [name] (.set name)
  | element {container : String} {inside : List String} {index : Expr}
      (hclosing : splitAtClosing "[" "]" 0 (inside ++ ["]"]) = some (inside, []))
      (hindex : readExpr known .value inside = .ok index []) :
      Target known (container :: "[" :: (inside ++ ["]"])) (.indexSet container index)

/-- What stands behind a target is assigned to it. -/
theorem readSet_of_target {args tokens value : List String} {assign : Expr → Action}
    (htarget : Target known tokens assign) (hargs : exprTokens args = tokens ++ value)
    {first : String} (hvalue : value.head? = some first) (hfirst : first ≠ "[")
    (hread : readAssigned known value = .ok expr) : readSet known args = .ok (assign expr) := by
  obtain ⟨rest, rfl⟩ := List.head?_eq_some_iff.mp hvalue
  cases htarget with
  | name name =>
      unfold readSet
      rw [hargs]
      simp [hfirst, hread]
  -- the bracket of the index closes in front of the value
  | @element container inside index hclosing hindex =>
      have hsplit := splitAtClosing_append hclosing (first :: rest)
      rw [List.append_assoc, List.singleton_append, List.nil_append] at hsplit
      have htokens : exprTokens args = container :: "[" :: (inside ++ "]" :: first :: rest) := by
        rw [hargs]
        simp
      exact readSet_of_element htokens hsplit hindex (List.cons_ne_nil first rest) hread

/-- The code of an assigned operation stands in a text that depends on the target alone. -/
theorem code_of_target {tokens : List String} {assign : Expr → Action}
    (htarget : Target known tokens assign) (settings : Settings) :
    ∃ before after, ∀ op left right, (assign (.binary op left right)).code settings =
      .ok (before ++ (Expr.binary op left right).code ++ after) := by
  cases htarget with
  | name name =>
      refine ⟨name ++ " = ", "", fun op left right => ?_⟩
      simp [Action.code, Code.assignedCode]
  | @element container inside index hclosing hindex =>
      cases hhelpers : settings.runtimeHelpers with
      | true =>
          refine ⟨Code.helperName ++ "(" ++ Code.singleQuoted container ++ ", " ++ container ++
            ", " ++ index.code ++ ", ", ")", fun op left right => ?_⟩
          simp [Action.code, hhelpers, String.append_assoc, String.intercalate_cons_cons]
      | false =>
          refine ⟨container ++ "[" ++ index.code ++ "] = ", "", fun op left right => ?_⟩
          simp [Action.code, hhelpers]

/-! ## Both forms -/

theorem readAssigned_operation {op : ArithOp} {left right : String} {first second : Expr}
    (hword : ActionWord.ofSpelling? word = some (.arith op))
    (hleft : readToken known left = .ok first) (hright : readToken known right = .ok second) :
    readAssigned known [word, left, right] = .ok (.binary op.toBinaryOp first second) := by
  have harith : arithOp? word = some op := by
    rw [arithOp?, hword]
  unfold readAssigned
  simp only [harith, hleft, hright]
  rfl

/-- An operation and its operands are tokens of their own behind any word. -/
theorem exprTokens_operation {left right : String}
    (hword : IsUnquoted word) (hleft : IsUnquoted left) (hright : IsUnquoted right)
    (target : String) :
    exprTokens [target, word, left, right] = exprTokens [target] ++ [word, left, right] := by
  have hjoined : (joinWords [word, left, right]).toList =
      word.toList ++ ' ' :: (left.toList ++ ' ' :: right.toList) := by
    rw [toList_joinWords_cons_cons, toList_joinWords_cons_cons, joinWords,
      String.intercalate_singleton]
  have htokens : exprTokens [word, left, right] = [word, left, right] := by
    rw [exprTokens, hjoined, hword.writable.ofText_append, hleft.writable.ofText_append,
      hright.writable.ofText_toList]
    simp
  have hbacktick : '\x60' ∉ (joinWords [word, left, right]).toList := by
    simp [hjoined, hword.backtick, hleft.backtick, hright.backtick]
  rw [exprTokens_cons_of_not_mem (List.cons_ne_nil _ _) hbacktick, htokens]

/-- **Both forms of an operation agree.**  A line of its own and an assignment with the same target,
operation and constant operands are read as such, and their codes show the same sign between the
operands.  An operand is the same text in both codes exactly if it is no word for the absent value
and has no underscores. -/
theorem code_of_operation (known : KnownNames) (settings : Settings) (line assignment : LineToken)
    {op : ArithOp} {target left right : String} {first second : Expr} {assign : Expr → Action}
    (hline : ActionWord.ofSpelling? line.action = some (.arith op))
    (hargs : line.args = [target, left, right])
    (hassignment : ActionWord.ofSpelling? assignment.action = some .set)
    (hassigned : assignment.args = [target, line.action, left, right])
    (htarget : Target known (exprTokens [target]) assign)
    (harrow : ArrowDirection.ofMarker? target = none)
    (hleft : readToken known left = .ok first) (hfirst : first.isConstant = true)
    (hright : readToken known right = .ok second) (hsecond : second.isConstant = true) :
    readStatement known line = .ok (line.statement (.arith op [target, left, right])) ∧
      readStatement known assignment =
        .ok (assignment.statement (assign (.binary op.toBinaryOp first second))) ∧
      (Action.arith op [target, left, right]).code settings =
        .ok (target ++ " = " ++ Code.rawOperand left ++ " " ++ op.symbol ++ " " ++
          Code.rawOperand right) ∧
      (∃ before after, (assign (.binary op.toBinaryOp first second)).code settings =
        .ok (before ++ ("(" ++ first.code ++ " " ++ op.symbol ++ " " ++ second.code ++ ")") ++
          after)) ∧
      (Code.rawOperand left = first.code ↔ isNoneWord left = false ∧ '_' ∉ left.toList) ∧
      (Code.rawOperand right = second.code ↔ isNoneWord right = false ∧ '_' ∉ right.toList) := by
  have hleftPrinted := PrintedAs.of_readToken hleft hfirst
  have hrightPrinted := PrintedAs.of_readToken hright hsecond
  have hword : IsUnquoted line.action := .of_ofSpelling? hline
  have hleftWord := hleftPrinted.isUnquoted hfirst
  have hrightWord := hrightPrinted.isUnquoted hsecond
  have hmarker : ∀ word ∈ [target, left, right], ArrowDirection.ofMarker? word = none := by
    simp [harrow, hleftWord.ofMarker?_eq_none, hrightWord.ofMarker?_eq_none]
  have hmarker' : ∀ word ∈ [target, line.action, left, right],
      ArrowDirection.ofMarker? word = none := by
    simp [harrow, hword.ofMarker?_eq_none, hleftWord.ofMarker?_eq_none,
      hrightWord.ofMarker?_eq_none]
  have hbracket : line.action ≠ "[" := by
    intro heq
    rw [heq] at hline
    cases hline
  -- the value is read as an operation, and behind the target nothing else is left
  have hvalue := readAssigned_operation hline hleft hright
  have hset : readSet known [target, line.action, left, right] =
      .ok (assign (.binary op.toBinaryOp first second)) :=
    readSet_of_target htarget (exprTokens_operation hword hleftWord hrightWord target) rfl hbracket
      hvalue
  obtain ⟨before, after, hcode⟩ := code_of_target htarget settings
  refine ⟨?own, ?assigned, rfl, ⟨before, after, ?shown⟩, rawOperand_eq_code_iff hleftPrinted hfirst,
    rawOperand_eq_code_iff hrightPrinted hsecond⟩
  case own =>
    rw [readStatement_of_ofSpelling? hline (by simp [hargs]) (hargs ▸ hmarker), hargs]
    rfl
  case assigned =>
    rw [readStatement_of_ofSpelling? hassignment (by simp [hassigned]) (hassigned ▸ hmarker'),
      hassigned, readAction, hset]
    rfl
  case shown =>
    rw [hcode, Expr.code, ArithOp.symbol_toBinaryOp]

/-- A truth value and a power of ten are the same text in both forms, also where an element is
assigned to. -/
theorem code_of_operation_on_element :
    Target .empty (exprTokens ["x[0]"]) (.indexSet "x" (.number "0")) ∧
      readToken .empty "真" = .ok (.bool true) ∧ readToken .empty "1e5" = .ok (.number "1e5") ∧
      Code.rawOperand "真" = (Expr.bool true).code ∧
      Code.rawOperand "1e5" = (Expr.number "1e5").code := by
  have htarget : Target .empty (exprTokens ["x[0]"]) (.indexSet "x" (.number "0")) := by
    have htokens : exprTokens ["x[0]"] = "x" :: "[" :: (["0"] ++ ["]"]) := by decide +kernel
    rw [htokens]
    exact .element (by decide) rfl
  have hleft : readToken .empty "真" = .ok (.bool true) := rfl
  have hright : readToken .empty "1e5" = .ok (.number "1e5") := rfl
  obtain ⟨-, -, -, -, hleftCode, hrightCode⟩ :=
    code_of_operation .empty .default
      ⟨"加", ["x[0]", "真", "1e5"], .continued, none, 1, {}⟩
      ⟨"置", ["x[0]", "加", "真", "1e5"], .continued, none, 2, {}⟩
      rfl rfl rfl rfl htarget (by decide) hleft rfl hright rfl
  exact ⟨htarget, hleft, hright, hleftCode.mpr (by decide), hrightCode.mpr (by decide)⟩

/-- The absent value and a numeral with underscores differ: the line of its own names a variable and
writes a text. -/
theorem code_of_absent_operand :
    (compile .default "set r add none 1_0").toOption.map Compiled.code = some "r = (None + 1_0)" ∧
      (compile .default "add r none 1_0").toOption.map Compiled.code =
        some "r = none + \"1_0\"" := by
  decide +kernel

end LineScript
