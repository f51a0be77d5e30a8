import LineScript.Proofs.Expr.Printing
import LineScript.Proofs.Text.Names

/-!
# Printed expressions on a line

A token of a printed expression is one of the signs of the language, or a printed word
(`Derives.isExprToken`).  Main statement: with blanks between them, the tokens of a printed
expression are cut out of a line again as they were, as long as its quoted texts are quotable
(`Derives.writable`).

Names are taken care of elsewhere.  What is left are the signs, which are finitely many, and the
numerals, whose characters are those of names and three others (`isNumeralCharacter`).

Whether a token can be written depends on its characters only: none of them may separate tokens, be
a token by itself, or begin a quote, unless the token is such a sign or a quoted text as a whole.
So the derivation is used once, to collect the tokens, and the rest is about single words.
-/

namespace LineScript

/-! ## Numerals -/

/-- The characters of numerals. -/
def isNumeralCharacter (c : Char) : Bool := c.isDigit || "_+-.eE".toList.contains c

namespace Text

variable {text : List Char}

theorem isNumeralCharacter_of_digits {after : Bool} (hdigits : Digits after text) :
    ∀ c ∈ text, isNumeralCharacter c = true := by
  intro c hc
  rcases hdigits.isDigit_or hc with hdigit | rfl
  · rw [isNumeralCharacter, hdigit, Bool.true_or]
  · decide

theorem isNumeralCharacter_of_pointed (hpointed : Pointed text) :
    ∀ c ∈ text, isNumeralCharacter c = true := by
  cases hpointed with
  | mk hwhole hfraction _ =>
      rw [List.forall_mem_append, List.forall_mem_cons]
      exact ⟨isNumeralCharacter_of_digits hwhole, by decide, isNumeralCharacter_of_digits hfraction⟩

theorem isNumeralCharacter_of_dropSign (hall : ∀ c ∈ dropSign text, isNumeralCharacter c = true) :
    ∀ c ∈ text, isNumeralCharacter c = true := by
  intro c hc
  rcases mem_dropSign hc with rfl | rfl | hrest
  · decide
  · decide
  · exact hall c hrest

theorem isNumeralCharacter_of_exponent (hexponent : Exponent text) :
    ∀ c ∈ text, isNumeralCharacter c = true := by
  cases hexponent with
  | mk hletter hpower =>
      refine List.forall_mem_cons.mpr
        ⟨?_, isNumeralCharacter_of_dropSign (isNumeralCharacter_of_digits hpower.1)⟩
      rcases hletter with rfl | rfl <;> decide

theorem isNumeralCharacter_of_isNumeric (hnumeric : isNumeric text = true) :
    ∀ c ∈ text, isNumeralCharacter c = true := by
  apply isNumeralCharacter_of_dropSign
  have hnumeral := numeral_of_isNumeric hnumeric
  generalize dropSign text = unsigned at hnumeral ⊢
  cases hnumeral with
  | integer hdigits => exact isNumeralCharacter_of_digits hdigits.1
  | pointed hpointed => exact isNumeralCharacter_of_pointed hpointed
  | scaled hcoefficient hexponent =>
      rw [List.forall_mem_append]
      refine ⟨?_, isNumeralCharacter_of_exponent hexponent⟩
      rcases hcoefficient with hdigits | hpointed
      · exact isNumeralCharacter_of_digits hdigits.1
      · exact isNumeralCharacter_of_pointed hpointed

end Text

/-- The characters of numerals are those of names, and signs and points. -/
theorem isNameCharacter_or_of_isNumeralCharacter {c : Char} (hc : isNumeralCharacter c = true) :
    isNameCharacter c = true ∨ c = '+' ∨ c = '-' ∨ c = '.' := by
  rw [isNumeralCharacter, Bool.or_eq_true] at hc
  rcases hc with hdigit | hother
  · left
    have hnumber : Text.numbers.contains c = true := Text.CharTable.contains_iff.mpr
      ⟨(0x30, 0x39), List.mem_cons_self, Text.toNat_of_isDigit hdigit⟩
    rw [isNameCharacter, Text.isLetterOrNumber, hnumber, Bool.or_true, Bool.true_or]
  · -- six characters that are no digits
    have hmem : c ∈ ['_', '+', '-', '.', 'e', 'E'] := List.contains_iff_mem.mp hother
    simp only [List.mem_cons, List.not_mem_nil, or_false] at hmem
    rcases hmem with rfl | hplus | hminus | hpoint | rfl | rfl
    · exact .inl (by simp [isNameCharacter])
    · exact .inr (.inl hplus)
    · exact .inr (.inr (.inl hminus))
    · exact .inr (.inr (.inr hpoint))
    · exact .inl (by decide)
    · exact .inl (by decide)

/-- Numerals are cut out of a line again. -/
theorem Writable.of_isNumericWord {word : String} (hnumeric : isNumericWord word = true) :
    Writable word := by
  have hchars := Text.isNumeralCharacter_of_isNumeric hnumeric
  refine .of_not_isStructural ?_ (fun c hc => ?_) ?_
  · rintro rfl
    exact absurd hnumeric (by decide)
  · rcases isNameCharacter_or_of_isNumeralCharacter (hchars c hc) with hname | rfl | rfl | rfl
    · exact plain_of_isNameCharacter hname
    all_goals decide
  · unfold ArrowDirection.ofMarker?
    split
    · exact absurd (hchars '>' (by decide)) (by decide)
    · exact absurd (hchars '<' (by decide)) (by decide)
    · rfl

/-! ## Tokens -/

variable {known : KnownNames} {phrase : Phrase} {context : Context} {tokens : List String}
  {token word : String} {expr : Expr}

/-- A token is a sign or a printed word. -/
def IsExprToken (known : KnownNames) (token : String) : Prop :=
  token ∈ exprSigns ∨ ∃ expr, PrintedAs known token expr

theorem forall_isExprToken_enclosed {opening closing : String} (hopening : opening ∈ exprSigns)
    (hclosing : closing ∈ exprSigns) (htokens : ∀ token ∈ tokens, IsExprToken known token) :
    ∀ token ∈ opening :: (tokens ++ [closing]), IsExprToken known token :=
  List.forall_mem_cons.mpr ⟨.inl hopening,
    List.forall_mem_append.mpr ⟨htokens, List.forall_mem_singleton.mpr (.inl hclosing)⟩⟩

theorem forall_isExprToken_cons (hword : word ∈ operatorWords)
    (htokens : ∀ token ∈ tokens, IsExprToken known token) :
    ∀ token ∈ word :: tokens, IsExprToken known token :=
  List.forall_mem_cons.mpr ⟨.inl (List.mem_append_right _ hword), htokens⟩

theorem forall_isExprToken_joined {left right : List String} (hword : word ∈ operatorWords)
    (hleft : ∀ token ∈ left, IsExprToken known token)
    (hright : ∀ token ∈ right, IsExprToken known token) :
    ∀ token ∈ left ++ word :: right, IsExprToken known token :=
  List.forall_mem_append.mpr ⟨hleft, forall_isExprToken_cons hword hright⟩

theorem Derives.isExprToken (hderives : Derives (.ofPrinter known) phrase context tokens expr) :
    ∀ token ∈ tokens, IsExprToken known token := by
  have hbar : "|" ∈ operatorWords := by decide
  have hround : "(" ∈ exprSigns ∧ ")" ∈ exprSigns := by decide
  have hsquare : "[" ∈ exprSigns ∧ "]" ∈ exprSigns := by decide
  -- signs and words come from finite lists, and all other tokens from below
  have hempty : ∀ token ∈ ["[", "]"], IsExprToken known token :=
    forall_isExprToken_enclosed hsquare.1 hsquare.2 (List.forall_mem_nil _)
  induction hderives with
  | loosen htight hderives ih => exact ih
  | binary htight hop hleft hright ihLeft ihRight =>
      exact forall_isExprToken_joined (Phrase.mem_operatorWords hop) ihLeft ihRight
  | compare hop hleft hright ihLeft ihRight =>
      exact forall_isExprToken_joined (mem_operatorWords_of_ofComparisonWord? hop) ihLeft ihRight
  | not hword hderives ih =>
      exact forall_isExprToken_cons (mem_operatorWords_of_isNotWord hword) ih
  | sign hop hderives ih =>
      exact forall_isExprToken_cons (mem_operatorWords_of_ofSign? hop) ih
  | index hcontainer hindex ihContainer ihIndex =>
      exact List.forall_mem_append.mpr
        ⟨ihContainer, forall_isExprToken_enclosed hsquare.1 hsquare.2 ihIndex⟩
  | word hspells => exact List.forall_mem_singleton.mpr (.inr ⟨_, hspells⟩)
  | group hcombination hderives ih => exact forall_isExprToken_enclosed hround.1 hround.2 ih
  | callGroup hargs hderives ih => exact forall_isExprToken_enclosed hround.1 hround.2 ih
  | callee hfunc => exact hfunc.elim
  | argument hcall harg ihCall ihArg => exact List.forall_mem_append.mpr ⟨ihCall, ihArg⟩
  | emptyList => exact hempty
  | list helements ih => exact forall_isExprToken_enclosed hsquare.1 hsquare.2 ih
  | lastElement helement ih => exact ih
  | element helement hmore ihElement ihMore =>
      exact forall_isExprToken_joined hbar ihElement ihMore
  | emptyDict hword =>
      exact forall_isExprToken_cons (mem_operatorWords_of_isMapWord hword) hempty
  | mapDict hword hentries ih =>
      exact forall_isExprToken_cons (mem_operatorWords_of_isMapWord hword)
        (forall_isExprToken_enclosed hsquare.1 hsquare.2 ih)
  | dict hentries ih => exact forall_isExprToken_enclosed hsquare.1 hsquare.2 ih
  | lastEntry hcolon hkey hvalue ihKey ihValue =>
      exact forall_isExprToken_joined (mem_operatorWords_of_isColon hcolon) ihKey ihValue
  | entry hcolon hkey hvalue hmore ihKey ihValue ihMore =>
      exact forall_isExprToken_joined (mem_operatorWords_of_isColon hcolon) ihKey
        (forall_isExprToken_joined hbar ihValue ihMore)

/-- A word that is not cut any further, no marker, and not empty. -/
def isUncut (word : String) : Bool :=
  word != "" && word.toList.all (fun c => !Text.isBlank c && c != '\x60' && c != '#') &&
    ExprTokens.splitStructural word.toList == [word.toList] &&
    (ArrowDirection.ofMarker? word).isNone

theorem Writable.of_isUncut (huncut : isUncut word = true) : Writable word := by
  simp only [isUncut, Bool.and_eq_true, bne_iff_ne, List.all_eq_true, Bool.not_eq_true', beq_iff_eq,
    Option.isNone_iff_eq_none] at huncut
  obtain ⟨⟨⟨hne, hchars⟩, hsplit⟩, harrow⟩ := huncut
  exact .word hne (fun c hc => and_assoc.mp (hchars c hc)) hsplit harrow

/-- The words for constants and the signs are cut out of a line again. -/
theorem writable_of_mem (hmem : word ∈ constantWords ++ exprSigns) : Writable word := by
  have hall : (constantWords ++ exprSigns).all isUncut = true := by
    decide
  exact .of_isUncut (List.all_eq_true.mp hall word hmem)

theorem PrintedAs.mem_constantWords (hprinted : PrintedAs known word expr)
    (hexpr : expr = .none ∨ ∃ value, expr = .bool value) : word ∈ constantWords := by
  cases hprinted with
  | trueWord hword => exact mem_of_contains (by decide) hword
  | falseWord hword => exact mem_of_contains (by decide) hword
  | noneWord hword => exact mem_of_contains (by decide) hword
  | _ => simp at hexpr

/-- Printed words are cut out of a line again, but for quoted texts that cannot be. -/
theorem PrintedAs.writable_or_quoted (hprinted : PrintedAs known word expr) :
    Writable word ∨ ∃ text, word = inBackticks text := by
  have hconstant (hexpr : expr = .none ∨ ∃ value, expr = .bool value) : Writable word :=
    writable_of_mem (List.mem_append_left _ (hprinted.mem_constantWords hexpr))
  cases hprinted with
  | number hnumeric => exact .inl (.of_isNumericWord hnumeric)
  | trueWord | falseWord => exact .inl (hconstant (.inr ⟨_, rfl⟩))
  | noneWord => exact .inl (hconstant (.inl rfl))
  | quoted htext => exact .inr ⟨_, rfl⟩
  | ident hidentifier => exact .inl (.of_isIdentifier hidentifier)

theorem IsExprToken.writable_or_quoted (htoken : IsExprToken known token) :
    Writable token ∨ ∃ text, token = inBackticks text := by
  rcases htoken with hsign | ⟨printed, hprinted⟩
  · exact .inl (writable_of_mem (List.mem_append_right _ hsign))
  · exact hprinted.writable_or_quoted

/-- **Printed expressions can be written.**  All tokens are cut out of a line again. -/
theorem Derives.writable (hderives : Derives (.ofPrinter known) phrase context tokens expr)
    (hquoted : ∀ text, inBackticks text ∈ tokens → Quotable text) :
    ∀ token ∈ tokens, Writable token := by
  intro token htoken
  rcases (hderives.isExprToken token htoken).writable_or_quoted with hwritable | ⟨text, rfl⟩
  · exact hwritable
  · exact .quoted (hquoted text htoken)

/-- No token has the marker of an arrow, if no quoted text has. -/
theorem IsExprToken.unmarked (htoken : IsExprToken known token)
    (hquoted : ∀ text, token = inBackticks text → Unmarked text) : Unmarked token := by
  rcases htoken.writable_or_quoted with hwritable | ⟨text, rfl⟩
  · exact hwritable.unmarked
  · exact (hquoted text rfl).inBackticks

end LineScript
