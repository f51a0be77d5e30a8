import LineScript.Compile
import LineScript.Proofs.Expr.Printing
import LineScript.Proofs.Statement.FreeText

/-!
# Printing a single word

What is printed is read as an expression, and is text where it is none.  A line that prints one
token takes a short way: constants, numerals and names are told by themselves, past all levels of
the grammar.

## Strategy

The short way tells what the token is as a primary expression (`readPrimary_of_printedWord?`), and a
single token is read as it is at the tightest level (`readDisjunction_singleton`).  So both ways
agree, except where a level above the tightest takes the token for itself.  Only negation does:
signs need an operand behind them, and the other operators one before.  The words for negation are
names as well, so that the short way takes a known one for a variable, while the grammar misses its
operand and leaves a text.

Main statement: both ways agree, unless the token is a word for negation that is a known name or
does not stand alone (`readPrinted_eq_iff`).
-/

namespace LineScript

variable {known : KnownNames} {inner : InnerReader} {args : List String} {token : String}
  {expr : Expr}

/-! ## The short way -/

/-- What the short way tells is a literal, or a name. -/
theorem printedWord?_cases (hprinted : printedWord? known token = some expr) :
    literal? token = some expr ∨
      literal? token = none ∧ isIdentifier token = true ∧
        expr = resolveWord known .value token := by
  by_cases htrue : isTrueWord token = true
  · exact .inl (by simpa [printedWord?, literal?, htrue] using hprinted)
  by_cases hfalse : isFalseWord token = true
  · exact .inl (by simpa [printedWord?, literal?, htrue, hfalse] using hprinted)
  by_cases hnone : isNoneWord token = true
  · exact .inl (by simpa [printedWord?, literal?, htrue, hfalse, hnone] using hprinted)
  by_cases hnumeric : isNumericWord token = true
  · rw [literal?_of_isNumericWord hnumeric]
    exact .inl (by simpa [printedWord?, htrue, hfalse, hnone, hnumeric] using hprinted)
  by_cases hidentifier : isIdentifier token = true
  · -- the short way does not look for quotes, and a name has none
    have hquoted := quotedText?_of_isIdentifier hidentifier
    refine .inr ⟨by simp [literal?, htrue, hfalse, hnone, hquoted, hnumeric], hidentifier, ?_⟩
    simpa [printedWord?, htrue, hfalse, hnone, hnumeric, hidentifier, eq_comm] using hprinted
  · simp [printedWord?, htrue, hfalse, hnone, hnumeric, hidentifier] at hprinted

/-- What the short way tells is the primary expression that the token is. -/
theorem readPrimary_of_printedWord? (hprinted : printedWord? known token = some expr) :
    readPrimary inner known .value [token] = .ok expr [] := by
  unfold readPrimary
  rcases printedWord?_cases hprinted with hliteral | ⟨hliteral, hidentifier, rfl⟩
  · simp only [hliteral]
  · have hgroup : token ≠ "(" := by
      rintro rfl
      exact absurd hidentifier (by decide +kernel)
    have hbracket : token ≠ "[" := by
      rintro rfl
      exact absurd hidentifier (by decide +kernel)
    simp [hliteral, hgroup, hbracket]

/-- No level of the grammar takes anything from such a token but a negation. -/
theorem readPrintedTokens_of_printedWord? (hprinted : printedWord? known token = some expr)
    (hnot : isNotWord token = false) (text : String) :
    readPrintedTokens known [token] text = .ok expr := by
  have hread : readExpr known .value [token] = .ok expr [] :=
    readDisjunction_singleton hnot rfl (readPrimary_of_printedWord? hprinted)
  rw [readPrintedTokens, hread]

/-! ## Words for negation -/

/-- A negation of nothing is text. -/
theorem readPrintedTokens_of_isNotWord (hnot : isNotWord token = true) (text : String) :
    readPrintedTokens known [token] text = .ok (.bare text) := by
  have hread : readExpr known .value [token] = .error .endOfExpression [] := by
    refine readDisjunction_of_isFinal trivial ?_
    rw [readNegation, if_pos hnot]
    rfl
  rw [readPrintedTokens, hread]

/-- The short way takes the words for negation for names. -/
theorem printedWord?_of_isNotWord (hnot : isNotWord token = true) :
    printedWord? known token =
      some (if known.contains token then .ident token else .bare token) := by
  have hwords : ∀ word ∈ ["not", "非"], isTrueWord word = false ∧ isFalseWord word = false ∧
      isNoneWord word = false ∧ isNumericWord word = false ∧ isIdentifier word = true := by
    decide +kernel
  obtain ⟨htrue, hfalse, hnone, hnumeric, hidentifier⟩ :=
    hwords token (by simpa using eq_of_isNotWord hnot)
  simp [printedWord?, resolveWord, htrue, hfalse, hnone, hnumeric, hidentifier]

/-! ## Both ways -/

/-- **The short way leads where the grammar does.**  A line that prints a single token prints what
the grammar makes of it, unless the token is a word for negation: such a word is the variable that
it names, or else its own spelling, where the grammar leaves the text of the whole line. -/
theorem readPrinted_eq_iff (known : KnownNames) (htokens : exprTokens args = [token]) :
    (readPrinted known args = (readPrintedTokens known [token] (joinWords args)).map some ↔
        (isNotWord token = true → known.contains token = false ∧ token = joinWords args)) ∧
      (isNotWord token = true →
        readPrinted known args =
            .ok (some (if known.contains token then .ident token else .bare token)) ∧
          readPrintedTokens known [token] (joinWords args) = .ok (.bare (joinWords args))) := by
  cases hnot : isNotWord token with
  | false =>
      refine ⟨iff_of_true ?_ nofun, nofun⟩
      rw [readPrinted, htokens]
      cases hprinted : printedWord? known token with
      | none => simp only [hprinted]
      | some expr =>
          simp only [hprinted, readPrintedTokens_of_printedWord? hprinted hnot]
          rfl
  | true =>
      have hshort : readPrinted known args =
          .ok (some (if known.contains token then .ident token else .bare token)) := by
        rw [readPrinted, htokens]
        simp only [printedWord?_of_isNotWord hnot]
      have hlong : readPrintedTokens known [token] (joinWords args) =
          .ok (.bare (joinWords args)) := readPrintedTokens_of_isNotWord hnot _
      refine ⟨?_, fun _ => ⟨hshort, hlong⟩⟩
      rw [hshort, hlong]
      cases hknown : known.contains token <;> simp [Except.map]

/-- A word for negation that nothing has declared is text for both ways. -/
theorem readPrinted_eq_of_unknown_negation :
    exprTokens ["not"] = ["not"] ∧
      readPrinted .empty ["not"] =
        (readPrintedTokens .empty ["not"] (joinWords ["not"])).map some := by
  have htokens : exprTokens ["not"] = ["not"] := by decide +kernel
  refine ⟨htokens, ?_⟩
  have hagree := (readPrinted_eq_iff .empty htokens).1
  exact hagree.mpr fun _ => ⟨rfl, by decide⟩

/-- A variable whose name is a word for negation is printed as a variable, although it is no
expression. -/
theorem readPrinted_ne_of_known_negation :
    exprTokens ["非"] = ["非"] ∧
      readPrinted (.ofWords ["非"]) ["非"] ≠
        (readPrintedTokens (.ofWords ["非"]) ["非"] (joinWords ["非"])).map some ∧
      (compile .default "set 非 5\nprint 非").toOption.map Compiled.code =
        some "非 = 5\nprint(非)" := by
  have htokens : exprTokens ["非"] = ["非"] := by decide +kernel
  have hnot : isNotWord "非" = true := by decide
  have hknown : (WordSet.ofWords ["非"]).contains "非" = true := by decide
  refine ⟨htokens, ?_, by decide +kernel⟩
  rw [readPrintedTokens_of_isNotWord hnot, readPrinted, htokens]
  simp [printedWord?_of_isNotWord hnot, hknown, Except.map]

end LineScript
