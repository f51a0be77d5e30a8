import LineScript.Compile
import LineScript.Proofs.Expr.Printing

/-!
# Numbers of the code

The code of a numeral is its text, so that it has to be a number of the generated code as well.
The two grammars differ in one place only: in the code, an integer begins with a zero only if all
its digits are zeros (`IsNumber`), while zeros in front of other digits are fine in a numeral
(`IsPadded`).

Main statement: the code of a numeral is a number, up to its sign, exactly if it is no integer with
zeros in front (`isNumber_code_iff`).
-/

namespace LineScript.Code

open Text

/-! ## Numbers -/

/-- An integer or a floating point number of the code, without a sign. -/
inductive IsNumber : List Char → Prop where
  | zeros {text : List Char} (hdigits : DigitPart text) (hzeros : ∀ c ∈ text, c = '0' ∨ c = '_') :
      IsNumber text
  | positive {first : Char} {rest : List Char} (hdigits : DigitPart (first :: rest))
      (hfirst : first ≠ '0') : IsNumber (first :: rest)
  | pointed {text : List Char} (hpointed : Pointed text) : IsNumber text
  | scaled {coefficient exponent : List Char}
      (hcoefficient : DigitPart coefficient ∨ Pointed coefficient) (hexponent : Exponent exponent) :
      IsNumber (coefficient ++ exponent)

/-- An integer that begins with a zero, and has other digits too. -/
def IsPadded (text : List Char) : Prop :=
  (∀ c ∈ text, c.isDigit = true ∨ c = '_') ∧ text.head? = some '0' ∧
    ∃ c ∈ text, ¬ (c = '0' ∨ c = '_')

variable {text : List Char}

/-- Points and letters are in no integer. -/
theorem IsPadded.not_mem (hpadded : IsPadded text) {c : Char} (hdigit : c.isDigit = false)
    (hunderscore : c ≠ '_') : c ∉ text := by
  intro hmem
  rcases hpadded.1 c hmem with hyes | hyes
  · rw [hdigit] at hyes
    cases hyes
  · exact hunderscore hyes

theorem IsPadded.not_pointed (hpadded : IsPadded text) : ¬ Pointed text := by
  intro hpointed
  cases hpointed with
  | mk _ _ _ => exact hpadded.not_mem (c := '.') rfl (by decide) (by simp)

theorem IsPadded.not_scaled {coefficient exponent : List Char}
    (hpadded : IsPadded (coefficient ++ exponent)) : ¬ Exponent exponent := by
  intro hexponent
  cases hexponent with
  | @mk letter power hletter _ =>
      have hmem : letter ∈ coefficient ++ letter :: power := by simp
      rcases hletter with rfl | rfl
      · exact hpadded.not_mem rfl (by decide) hmem
      · exact hpadded.not_mem rfl (by decide) hmem

theorem IsPadded.not_isNumber (hpadded : IsPadded text) : ¬ IsNumber text := by
  intro hnumber
  cases hnumber with
  | zeros _ hzeros =>
      obtain ⟨-, -, c, hmem, hother⟩ := hpadded
      exact hother (hzeros c hmem)
  | positive _ hfirst => exact hfirst (Option.some.inj hpadded.2.1)
  | pointed hpointed => exact hpadded.not_pointed hpointed
  | scaled _ hexponent => exact hpadded.not_scaled hexponent

/-- Zeros in front are all that keeps a numeral from being a number. -/
theorem isNumber_of_numeral (hnumeral : Numeral text) (hpadded : ¬ IsPadded text) :
    IsNumber text := by
  cases hnumeral with
  | pointed hpointed => exact .pointed hpointed
  | scaled hcoefficient hexponent => exact .scaled hcoefficient hexponent
  | integer hdigits =>
      obtain ⟨first, rest, rfl⟩ := List.exists_cons_of_ne_nil hdigits.2
      -- an integer without zeros in front is positive, or has no other digit
      by_cases hfirst : first = '0'
      · refine .zeros hdigits fun c hmem => ?_
        by_contra hother
        exact hpadded ⟨fun _ => hdigits.1.isDigit_or, by rw [hfirst]; rfl, c, hmem, hother⟩
      · exact .positive hdigits hfirst

/-! ## The code of numerals -/

/-- **The code of a numeral is a number.**  Behind a sign that it may have, the code is a number of
the generated language unless it is an integer with zeros in front of other digits. -/
theorem isNumber_code_iff {token : String} (hnumeric : isNumericWord token = true) :
    literal? token = some (.number token) ∧
      (IsNumber (dropSign (Expr.number token).code.toList) ↔
        ¬ IsPadded (dropSign (Expr.number token).code.toList)) := by
  refine ⟨literal?_of_isNumericWord hnumeric, fun hnumber hpadded => ?_, ?_⟩
  · exact hpadded.not_isNumber hnumber
  · exact isNumber_of_numeral (numeral_of_isNumeric hnumeric)

/-- Zeros may stand in front of a point. -/
theorem isNumber_code_of_fraction :
    isNumericWord "-00_7.5e+1_0" = true ∧
      IsNumber (dropSign (Expr.number "-00_7.5e+1_0").code.toList) := by
  have hnumeric : isNumericWord "-00_7.5e+1_0" = true := by decide
  have hpoint : '.' ∈ dropSign (Expr.number "-00_7.5e+1_0").code.toList := by decide
  refine ⟨hnumeric, (isNumber_code_iff hnumeric).2.mpr fun hpadded => ?_⟩
  exact hpadded.not_mem rfl (by decide) hpoint

/-- An integer with zeros in front is a numeral, and its code is no number. -/
theorem not_isNumber_code_of_padded :
    isNumericWord "007" = true ∧ (Expr.number "007").code = "007" ∧
      (compile .default "set x 007").toOption.map Compiled.code = some "x = 007" ∧
      ¬ IsNumber (dropSign (Expr.number "007").code.toList) := by
  have hpadded : IsPadded ['0', '0', '7'] := ⟨by simp, rfl, '7', by simp, by simp⟩
  exact ⟨by decide, rfl, by decide +kernel, hpadded.not_isNumber⟩

end LineScript.Code
