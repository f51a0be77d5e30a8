import LineScript.Proofs.Expr.Grammar
import LineScript.Proofs.Text.Names
import LineScript.Proofs.Text.Numeral

/-!
# The tokens of printed expressions

What can be said of the tokens of a printed expression without reading it: each word has one
meaning in both contexts (`PrintedAs.literal?_or_variable`), the brackets of both kinds match
(`Derives.matched`), and the first token of a phrase begins no looser one (`Derives.starts`).

The numerals are here as well, because the readers try a word as a literal before they take it for
a name: no identifier is a numeral.

## Why matched brackets

The readers find the end of a group before they look at what is inside, by counting parentheses.  So
it matters for a phrase in parentheses that the search passes over it, whatever depth it starts from
and whatever is behind it (`Matched`).  Stated like this the property is closed under concatenation
and under brackets around it, and one may also exchange a matched part for another one
(`Matched.replace`): in front of that part the search comes out at some depth, which
`exists_depth_of_splitAtClosing` names, and from there on the two texts are the same.
-/

namespace LineScript

/-! ## Numerals and identifiers -/

namespace Text

theorem le_of_isLetter {c : Char} (hletter : isLetter c = true) : 'A'.toNat ≤ c.toNat := by
  have hbasic : ∀ interval ∈ lettersOfBasicPlane, 'A'.toNat ≤ interval.1 := by
    decide +kernel
  have hother : ∀ interval ∈ lettersOfOtherPlanes, 'A'.toNat ≤ interval.1 := by
    decide +kernel
  have hcontains : ∃ interval ∈ lettersOfBasicPlane ++ lettersOfOtherPlanes,
      interval.1 ≤ c.toNat ∧ c.toNat ≤ interval.2 := by
    simpa [isLetter, CharTable.contains, or_and_right, exists_or] using hletter
  obtain ⟨interval, hmem, hle, -⟩ := hcontains
  rcases List.mem_append.mp hmem with h | h
  · exact Nat.le_trans (hbasic interval h) hle
  · exact Nat.le_trans (hother interval h) hle

theorem isDigit_eq_false_of_isLetter {c : Char} (hletter : isLetter c = true) :
    c.isDigit = false := by
  have hlarge := le_of_isLetter hletter
  have hA : 'A'.toNat = 65 := rfl
  have h9 : '9'.val.toNat = 57 := rfl
  have hval : c.val.toNat = c.toNat := rfl
  cases hdigit : c.isDigit with
  | false => rfl
  | true =>
      simp only [Char.isDigit, Bool.and_eq_true, decide_eq_true_eq,
        UInt32.le_iff_toNat_le] at hdigit
      omega

end Text

/-- A name begins with a letter or an underscore, which is no digit. -/
theorem exists_head_of_isIdentifier {word : String} (hidentifier : isIdentifier word = true) :
    ∃ first rest, word.toList = first :: rest ∧ (Text.isLetter first || first == '_') = true ∧
      first.isDigit = false ∧ isNameCharacter first = true := by
  have hcharacters := isNameCharacter_of_isIdentifier hidentifier
  unfold isIdentifier at hidentifier
  split at hidentifier
  · cases hidentifier
  next first rest hword =>
    have hstart : (Text.isLetter first || first == '_') = true :=
      (Bool.and_eq_true_iff.mp hidentifier).1
    refine ⟨first, rest, hword, hstart, ?_, hcharacters first (hword ▸ List.mem_cons_self)⟩
    -- neither a letter nor an underscore is a digit
    rcases Bool.or_eq_true_iff.mp hstart with hletter | hunderscore
    · exact Text.isDigit_eq_false_of_isLetter hletter
    · rw [beq_iff_eq.mp hunderscore]
      decide

theorem isNumericWord_eq_false_of_isIdentifier {word : String}
    (hidentifier : isIdentifier word = true) : isNumericWord word = false := by
  obtain ⟨first, rest, hword, -, hdigit, hname⟩ := exists_head_of_isIdentifier hidentifier
  by_contra hnumeric
  rw [Bool.not_eq_false, isNumericWord, hword] at hnumeric
  rcases Text.head_of_isNumeric hnumeric with hyes | hsign | hsign | hsign
  · rw [hdigit] at hyes
    cases hyes
  all_goals exact ne_of_isNameCharacter hname (by decide) hsign

/-! ## Literals -/

theorem quotedText?_quoted {text : String} (htext : text ≠ "") :
    quotedText? ("\x60\x60" ++ text ++ "\x60\x60") = some text := by
  have htoList : ("\x60\x60" ++ text ++ "\x60\x60").toList =
      '\x60' :: '\x60' :: (text.toList ++ ['\x60', '\x60']) := by
    simp [String.toList_append]
  simp [quotedText?, htoList, List.reverse_append, htext]

/-- A text between double backticks starts with one. -/
theorem head_of_quotedText? {word text : String} (hquoted : quotedText? word = some text) :
    ∃ rest, word.toList = '\x60' :: rest := by
  unfold quotedText? at hquoted
  split at hquoted
  next rest hword => exact ⟨_, hword⟩
  next => cases hquoted

/-- The words for truth, falsehood and the absent value. -/
def constantWords : List String := ["true", "真", "false", "假", "偽", "none", "无", "無"]

/-- What is none of the constants can only be a quoted text or a numeral. -/
theorem literal?_of_not_mem_constantWords {word : String} (hword : word ∉ constantWords) :
    literal? word = match quotedText? word with
      | some text => some (.str text true)
      | none => if isNumericWord word then some (.number word) else none := by
  simp only [constantWords, List.mem_cons, List.not_mem_nil, or_false, not_or] at hword
  have htrue : isTrueWord word = false := by simp [isTrueWord, hword]
  have hfalse : isFalseWord word = false := by simp [isFalseWord, hword]
  have hnone : isNoneWord word = false := by simp [isNoneWord, hword]
  rw [literal?, htrue, hfalse, hnone]
  rfl

theorem literal?_of_isNumericWord {word : String} (hnumeric : isNumericWord word = true) :
    literal? word = some (.number word) := by
  have hconstants : ∀ other ∈ constantWords, isNumericWord other = false := by decide
  have hword : word ∉ constantWords := by
    intro hmem
    rw [hconstants word hmem] at hnumeric
    cases hnumeric
  -- a quoted text begins with a backtick, and no numeral does
  have hquoted : quotedText? word = none := by
    cases hquoted : quotedText? word with
    | none => rfl
    | some text =>
        obtain ⟨rest, htext⟩ := head_of_quotedText? hquoted
        rw [isNumericWord, htext] at hnumeric
        exact absurd (Text.head_of_isNumeric hnumeric) (by decide)
  rw [literal?_of_not_mem_constantWords hword, hquoted]
  exact if_pos hnumeric

theorem literal?_quoted {text : String} (htext : text ≠ "") :
    literal? ("\x60\x60" ++ text ++ "\x60\x60") = some (.str text true) := by
  have hconstants : ∀ other ∈ constantWords, quotedText? other = none := by decide
  have hquoted := quotedText?_quoted htext
  have hword : "\x60\x60" ++ text ++ "\x60\x60" ∉ constantWords := by
    intro hmem
    rw [hconstants _ hmem] at hquoted
    cases hquoted
  rw [literal?_of_not_mem_constantWords hword, hquoted]

theorem quotedText?_of_isIdentifier {word : String} (hidentifier : isIdentifier word = true) :
    quotedText? word = none := by
  cases hquoted : quotedText? word with
  | none => rfl
  | some text =>
      obtain ⟨rest, hword⟩ := head_of_quotedText? hquoted
      have hbacktick : '\x60' ∈ word.toList := hword ▸ List.mem_cons_self
      rw [isIdentifier_eq_false_of_mem hbacktick (by decide)] at hidentifier
      cases hidentifier

theorem literal?_of_isIdentifier {word : String} (hidentifier : isIdentifier word = true)
    (hkeyword : isKeyword word = false) : literal? word = none := by
  have hnumeric := isNumericWord_eq_false_of_isIdentifier hidentifier
  have hquoted := quotedText?_of_isIdentifier hidentifier
  simp only [isKeyword, Bool.or_eq_false_iff] at hkeyword
  simp [literal?, hkeyword, hquoted, hnumeric]

/-! ## Words of the language -/

variable {known : KnownNames} {phrase : Phrase} {context : Context} {tokens : List String}
  {word : String} {expr : Expr}

theorem eq_of_isMapWord (hword : isMapWord word = true) :
    word = "map" ∨ word = "映" ∨ word = "辞" := by
  simpa [isMapWord] using hword

theorem eq_of_isNotWord (hword : isNotWord word = true) : word = "not" ∨ word = "非" := by
  simpa [isNotWord] using hword

theorem eq_of_isColon (hword : isColon word = true) : word = ":" ∨ word = "：" := by
  simpa [isColon] using hword

/-- The tokens of expressions that are neither brackets nor printed words: operators in all
spellings, bars, colons and the words in front of dictionaries. -/
def operatorWords : List String :=
  ["or", "或", "and", "且", "not", "非", "==", "!=", "<", "<=", ">", ">=", "是", "不是", "+", "-", "*",
    "/", "|", ":", "：", "map", "映", "辞"]

/-- The tokens of expressions that are no printed words. -/
def exprSigns : List String := ["(", ")", "[", "]"] ++ operatorWords

theorem mem_of_contains {words list : List String} (hsubset : words ⊆ list)
    (hcontains : words.contains word = true) : word ∈ list :=
  hsubset (List.contains_iff_mem.mp hcontains)

theorem mem_operatorWords_of_isNotWord (hword : isNotWord word = true) : word ∈ operatorWords :=
  mem_of_contains (by decide) hword

theorem mem_operatorWords_of_isMapWord (hword : isMapWord word = true) : word ∈ operatorWords :=
  mem_of_contains (by decide) hword

theorem mem_operatorWords_of_isColon (hword : isColon word = true) : word ∈ operatorWords :=
  mem_of_contains (by decide) hword

theorem mem_operatorWords_of_ofComparisonWord? {op : BinaryOp}
    (hop : BinaryOp.ofComparisonWord? word = some op) : word ∈ operatorWords := by
  unfold BinaryOp.ofComparisonWord? BinaryOp.ofComparisonSymbol? at hop
  repeat' split at hop
  all_goals first | decide | cases hop

theorem mem_operatorWords_of_ofSign? {op : UnaryOp} (hop : UnaryOp.ofSign? word = some op) :
    word ∈ operatorWords := by
  unfold UnaryOp.ofSign? at hop
  split at hop
  all_goals first | decide | cases hop

theorem mem_operatorWords_of_ofSumWord? {op : BinaryOp}
    (hop : BinaryOp.ofSumWord? word = some op) : word ∈ operatorWords := by
  unfold BinaryOp.ofSumWord? at hop
  split at hop
  all_goals first | decide | cases hop

theorem mem_operatorWords_of_ofProductWord? {op : BinaryOp}
    (hop : BinaryOp.ofProductWord? word = some op) : word ∈ operatorWords := by
  unfold BinaryOp.ofProductWord? at hop
  split at hop
  all_goals first | decide | cases hop

theorem Phrase.mem_operatorWords {op : BinaryOp} (hop : phrase.operator? word = some op) :
    word ∈ operatorWords := by
  cases phrase with
  | disjunction =>
      obtain ⟨hword, -⟩ := Option.ite_none_right_eq_some.mp hop
      exact mem_of_contains (by decide) hword
  | conjunction =>
      obtain ⟨hword, -⟩ := Option.ite_none_right_eq_some.mp hop
      exact mem_of_contains (by decide) hword
  | sum => exact mem_operatorWords_of_ofSumWord? hop
  | product => exact mem_operatorWords_of_ofProductWord? hop
  | _ => cases hop

/-! ## Printed words -/

/-- A printed word is a literal, or a known name that is no word of the language. -/
theorem PrintedAs.literal?_or_variable (hprinted : PrintedAs known word expr) :
    literal? word = some expr ∨ literal? word = none ∧ isKeyword word = false ∧
      isIdentifier word = true ∧ known.contains word = true ∧ expr = .ident word := by
  cases hprinted with
  | number hnumeric => exact .inl (literal?_of_isNumericWord hnumeric)
  | trueWord hword =>
      left
      simp [literal?, hword]
  | falseWord hword =>
      left
      obtain rfl | rfl | rfl : word = "false" ∨ word = "假" ∨ word = "偽" := by
        simpa [isFalseWord] using hword
      all_goals rfl
  | noneWord hword =>
      left
      obtain rfl | rfl | rfl : word = "none" ∨ word = "无" ∨ word = "無" := by
        simpa [isNoneWord] using hword
      all_goals rfl
  | quoted htext => exact .inl (literal?_quoted htext)
  | ident hidentifier hknown hkeyword =>
      exact .inr ⟨literal?_of_isIdentifier hidentifier hkeyword, hkeyword, hidentifier, hknown, rfl⟩

/-- What is neither a literal nor a name, or belongs to the language, is no printed word. -/
theorem PrintedAs.ne (hprinted : PrintedAs known word expr) {other : String}
    (hliteral : literal? other = none)
    (hname : isIdentifier other = false ∨ isKeyword other = true) : word ≠ other := by
  rintro rfl
  rcases hprinted.literal?_or_variable with h | ⟨-, hkeyword, hidentifier, -, -⟩
  · rw [hliteral] at h
    cases h
  · rcases hname with hno | hyes
    · rw [hidentifier] at hno
      cases hno
    · rw [hkeyword] at hyes
      cases hyes

/-- A printed word is no sign. -/
theorem PrintedAs.not_mem_exprSigns (hprinted : PrintedAs known word expr) :
    word ∉ exprSigns := by
  have hsigns : ∀ sign ∈ exprSigns, literal? sign = none ∧
      (isKeyword sign = true ∨ sign.toList.any Text.outsideNames.contains = true) := by
    decide
  intro hmem
  obtain ⟨hliteral, hkeyword | hsign⟩ := hsigns word hmem
  · exact hprinted.ne hliteral (.inr hkeyword) rfl
  · exact hprinted.ne hliteral (.inl (isIdentifier_eq_false_of_any hsign)) rfl

theorem PrintedAs.ne_sign (hprinted : PrintedAs known word expr) {sign : String}
    (hsign : sign ∈ exprSigns) : word ≠ sign :=
  (ne_of_mem_of_not_mem hsign hprinted.not_mem_exprSigns).symm

theorem resolveWord_of_known (hknown : known.contains word = true)
    (hidentifier : isIdentifier word = true) (context : Context) :
    resolveWord known context word = .ident word := by
  simp [resolveWord, hidentifier, hknown]

/-! ## Matching brackets -/

/-- Whether a token is a parenthesis. -/
def isParenthesis (token : String) : Bool := token = "(" || token = ")"

/-- Whether a token is a bracket of either kind. -/
def isBracket (token : String) : Bool := isParenthesis token || token = "[" || token = "]"

theorem isBracket_eq_false_iff {token : String} :
    isBracket token = false ↔ token ≠ "(" ∧ token ≠ ")" ∧ token ≠ "[" ∧ token ≠ "]" := by
  simp [isBracket, isParenthesis, and_assoc]

/-- The two kinds of brackets, opening and closing. -/
def bracketPairs : List (String × String) := [("(", ")"), ("[", "]")]

/-- The brackets of one kind among the tokens match: the search for a closing one passes over
them. -/
def Matched (pair : String × String) (tokens : List String) : Prop :=
  ∀ depth behind, splitAtClosing pair.1 pair.2 depth (tokens ++ behind) =
    (splitAtClosing pair.1 pair.2 depth behind).map fun parts => (tokens ++ parts.1, parts.2)

/-- The parentheses among the tokens match: the search for a closing one passes over them. -/
def Balanced (tokens : List String) : Prop :=
  ∀ depth behind, splitAtClosing "(" ")" depth (tokens ++ behind) =
    (splitAtClosing "(" ")" depth behind).map fun parts => (tokens ++ parts.1, parts.2)

/-- The search for a closing bracket that finds none goes on behind tokens at some depth. -/
theorem exists_depth_of_splitAtClosing {opening closing : String} {depth : Nat}
    {rest : List String}
    (hnone : splitAtClosing opening closing depth (tokens ++ rest) = none) :
    ∃ depth', ∀ behind, splitAtClosing opening closing depth (tokens ++ behind) =
      (splitAtClosing opening closing depth' behind).map fun parts =>
        (tokens ++ parts.1, parts.2) := by
  induction tokens generalizing depth with
  | nil => exact ⟨depth, fun behind => by simp⟩
  | cons token tokens ih =>
      -- one token changes the depth of the search, unless it ends it
      have hstep : ∃ next, ∀ behind,
          splitAtClosing opening closing depth (token :: tokens ++ behind) =
            (splitAtClosing opening closing next (tokens ++ behind)).map fun parts =>
              (token :: parts.1, parts.2) := by
        by_cases hopening : token = opening
        · exact ⟨depth + 1, fun behind => by simp [splitAtClosing, hopening]⟩
        · by_cases hclosing : token = closing
          · cases depth with
            | zero => simp [splitAtClosing, hopening, ← hclosing] at hnone
            | succ depth =>
                exact ⟨depth, fun behind => by simp [splitAtClosing, hopening, ← hclosing]⟩
          · exact ⟨depth, fun behind => by simp [splitAtClosing, hopening, hclosing]⟩
      obtain ⟨next, hstep⟩ := hstep
      rw [hstep, Option.map_eq_none_iff] at hnone
      obtain ⟨depth', hgoesOn⟩ := ih hnone
      refine ⟨depth', fun behind => ?_⟩
      rw [hstep, hgoesOn, Option.map_map]
      rfl

namespace Matched

variable {pair other : String × String}

theorem nil : Matched pair [] := by
  intro depth behind
  simp

theorem append {front back : List String} (hfront : Matched pair front)
    (hback : Matched pair back) : Matched pair (front ++ back) := by
  intro depth behind
  rw [List.append_assoc, hfront, hback, Option.map_map]
  simp [Function.comp_def]

theorem token_of_ne {token : String} (hopening : token ≠ pair.1) (hclosing : token ≠ pair.2) :
    Matched pair [token] := by
  intro depth behind
  simp [splitAtClosing, hopening, hclosing]

theorem token (hpair : pair ∈ bracketPairs) {token : String} (htoken : isBracket token = false) :
    Matched pair [token] := by
  obtain ⟨hopen, hclose, hopening, hclosing⟩ := isBracket_eq_false_iff.mp htoken
  simp only [bracketPairs, List.mem_cons, List.not_mem_nil, or_false] at hpair
  rcases hpair with rfl | rfl
  · exact token_of_ne hopen hclose
  · exact token_of_ne hopening hclosing

theorem cons (hpair : pair ∈ bracketPairs) {token : String} (htoken : isBracket token = false)
    (htokens : Matched pair tokens) : Matched pair (token :: tokens) :=
  (Matched.token hpair htoken).append htokens

theorem enclosed_self (hne : pair.1 ≠ pair.2) (htokens : Matched pair tokens) :
    Matched pair (pair.1 :: (tokens ++ [pair.2])) := by
  intro depth behind
  have hopen : pair.1 :: (tokens ++ [pair.2]) ++ behind =
      pair.1 :: (tokens ++ pair.2 :: behind) := by simp
  have hclose : splitAtClosing pair.1 pair.2 (depth + 1) (pair.2 :: behind) =
      (splitAtClosing pair.1 pair.2 depth behind).map fun parts =>
        (pair.2 :: parts.1, parts.2) := by
    simp [splitAtClosing, hne.symm]
  -- the opening bracket makes the search one deeper, the closing one brings it back
  rw [hopen, splitAtClosing.eq_def]
  simp only [if_true]
  rw [htokens, hclose]
  simp [Option.map_map, Function.comp_def]

/-- Brackets of either kind around the tokens match, too. -/
theorem enclosed (hpair : pair ∈ bracketPairs) (hother : other ∈ bracketPairs)
    (htokens : Matched pair tokens) : Matched pair (other.1 :: (tokens ++ [other.2])) := by
  simp only [bracketPairs, List.mem_cons, List.not_mem_nil, or_false] at hpair hother
  rcases hpair with rfl | rfl <;> rcases hother with rfl | rfl
  · exact htokens.enclosed_self (by decide)
  · exact (token_of_ne (by decide) (by decide)).append
      (htokens.append (token_of_ne (by decide) (by decide)))
  · exact (token_of_ne (by decide) (by decide)).append
      (htokens.append (token_of_ne (by decide) (by decide)))
  · exact htokens.enclosed_self (by decide)

/-- Matching tokens among matching tokens can be replaced by others that match. -/
theorem replace {front old new back : List String}
    (hmatched : Matched pair (front ++ old ++ back)) (hold : Matched pair old)
    (hnew : Matched pair new) : Matched pair (front ++ new ++ back) := by
  intro depth behind
  have hinjective (tokens : List String) : Function.Injective
      fun parts : List String × List String => (tokens ++ parts.1, parts.2) := by
    rintro ⟨first, second⟩ ⟨first', second'⟩ heq
    simpa using heq
  -- the search comes out of the part in front at some depth, and passes over the part behind from
  -- there on, with the old tokens in between as with the new ones
  have hnone : splitAtClosing pair.1 pair.2 depth (front ++ (old ++ back)) = none := by
    have hwhole := hmatched depth []
    rwa [List.append_nil, List.append_assoc] at hwhole
  obtain ⟨depth', hfront⟩ := exists_depth_of_splitAtClosing hnone
  have hacross {middle : List String} (hmiddle : Matched pair middle) (rest : List String) :
      splitAtClosing pair.1 pair.2 depth (front ++ middle ++ back ++ rest) =
        (splitAtClosing pair.1 pair.2 depth' (back ++ rest)).map fun parts =>
          (front ++ middle ++ parts.1, parts.2) := by
    rw [List.append_assoc, List.append_assoc, hfront, hmiddle, Option.map_map]
    simp [Function.comp_def]
  have hbehind := hmatched depth behind
  rw [hacross hold] at hbehind
  have hback : splitAtClosing pair.1 pair.2 depth' (back ++ behind) =
      (splitAtClosing pair.1 pair.2 depth behind).map fun parts => (back ++ parts.1, parts.2) := by
    refine Option.map_injective (hinjective (front ++ old)) ?_
    rw [hbehind, Option.map_map]
    simp [Function.comp_def]
  rw [hacross hnew, hback, Option.map_map]
  simp [Function.comp_def]

end Matched

theorem not_isBracket_of_mem_operatorWords (hmem : word ∈ operatorWords) :
    isBracket word = false := by
  have hall : ∀ word ∈ operatorWords, isBracket word = false := by
    decide
  exact hall word hmem

theorem PrintedAs.not_isBracket (hprinted : PrintedAs known word expr) :
    isBracket word = false := by
  refine isBracket_eq_false_iff.mpr ⟨?_, ?_, ?_, ?_⟩
  all_goals exact hprinted.ne_sign (by decide)

/-- The brackets of a printed expression match. -/
theorem Derives.matched {pair : String × String} (hpair : pair ∈ bracketPairs)
    (hderives : Derives (.ofPrinter known) phrase context tokens expr) : Matched pair tokens := by
  have hround : ("(", ")") ∈ bracketPairs := by decide
  have hsquare : ("[", "]") ∈ bracketPairs := by decide
  -- the only brackets come in pairs, with a phrase or nothing between them
  have hempty : Matched pair ["[", "]"] := Matched.nil.enclosed hpair hsquare
  have hcons {word : String} {tokens : List String} (hword : word ∈ operatorWords)
      (htokens : Matched pair tokens) : Matched pair (word :: tokens) :=
    htokens.cons hpair (not_isBracket_of_mem_operatorWords hword)
  have hbar : "|" ∈ operatorWords := by decide
  induction hderives with
  | loosen htight hderives ih => exact ih
  | binary htight hop hleft hright ihLeft ihRight =>
      exact ihLeft.append (hcons (Phrase.mem_operatorWords hop) ihRight)
  | compare hop hleft hright ihLeft ihRight =>
      exact ihLeft.append (hcons (mem_operatorWords_of_ofComparisonWord? hop) ihRight)
  | not hword hderives ih => exact hcons (mem_operatorWords_of_isNotWord hword) ih
  | sign hop hderives ih => exact hcons (mem_operatorWords_of_ofSign? hop) ih
  | index hcontainer hindex ihContainer ihIndex =>
      exact ihContainer.append (ihIndex.enclosed hpair hsquare)
  | word hspells => exact .token hpair (PrintedAs.not_isBracket hspells)
  | group hcombination hderives ih => exact ih.enclosed hpair hround
  | callGroup hargs hderives ih => exact ih.enclosed hpair hround
  | callee hfunc => exact hfunc.elim
  | argument hcall harg ihCall ihArg => exact ihCall.append ihArg
  | emptyList => exact hempty
  | list helements ih => exact ih.enclosed hpair hsquare
  | lastElement helement ih => exact ih
  | element helement hmore ihElement ihMore => exact ihElement.append (hcons hbar ihMore)
  | emptyDict hword => exact hcons (mem_operatorWords_of_isMapWord hword) hempty
  | mapDict hword hentries ih =>
      exact hcons (mem_operatorWords_of_isMapWord hword) (ih.enclosed hpair hsquare)
  | dict hentries ih => exact ih.enclosed hpair hsquare
  | lastEntry hcolon hkey hvalue ihKey ihValue =>
      exact ihKey.append (hcons (mem_operatorWords_of_isColon hcolon) ihValue)
  | entry hcolon hkey hvalue hmore ihKey ihValue ihMore =>
      exact ihKey.append (hcons (mem_operatorWords_of_isColon hcolon)
        (ihValue.append (hcons hbar ihMore)))

/-- The parentheses of a printed expression match. -/
theorem Derives.balanced (hderives : Derives (.ofPrinter known) phrase context tokens expr) :
    Balanced tokens := by
  have hround : ("(", ")") ∈ bracketPairs := by decide
  exact hderives.matched hround

/-! ## First tokens -/

/-- The tokens that a phrase can start with, as far as the readers ask: none starts with a closing
bracket, what starts with `not` is at least a negation, and what starts with a sign at least
signed. -/
def Phrase.canStart : Phrase → String → Bool
  | .indexed, token => token ≠ "]" && !isNotWord token && (UnaryOp.ofSign? token).isNone
  | .comparison, token | .sum, token | .product, token | .signed, token =>
      token ≠ "]" && !isNotWord token
  | _, token => token ≠ "]"

theorem Phrase.canStart_of_tighter? {tight : Phrase} {token : String}
    (htight : phrase.tighter? = some tight) (hstart : tight.canStart token = true) :
    phrase.canStart token = true := by
  cases phrase <;> cases htight <;> simp_all [Phrase.canStart]

theorem Phrase.ne_of_canStart {token : String} (hstart : phrase.canStart token = true) :
    token ≠ "]" := by
  cases phrase <;> simp_all [Phrase.canStart]

theorem Phrase.isNotWord_of_canStart {token : String}
    (hstart : Phrase.comparison.canStart token = true) : isNotWord token = false := by
  simp only [Phrase.canStart, Bool.and_eq_true] at hstart
  simpa using hstart.2

theorem Phrase.ofSign?_of_canStart {token : String}
    (hstart : Phrase.indexed.canStart token = true) : UnaryOp.ofSign? token = none := by
  simp only [Phrase.canStart, Bool.and_eq_true] at hstart
  simpa using hstart.2

/-- What a phrase can start with is no closing bracket, so that something stands in the brackets. -/
theorem Phrase.head?_ne_of_starts
    (hstarts : ∃ first rest, tokens = first :: rest ∧ phrase.canStart first = true)
    (rest : List String) : (tokens ++ rest).head? ≠ some "]" := by
  obtain ⟨first, behind, rfl, hstart⟩ := hstarts
  intro hhead
  cases hhead
  exact Phrase.ne_of_canStart hstart rfl

theorem PrintedAs.canStart (hprinted : PrintedAs known word expr) :
    Phrase.indexed.canStart word = true := by
  have hsign : UnaryOp.ofSign? word = none := by
    unfold UnaryOp.ofSign?
    split
    · exact absurd rfl (hprinted.ne_sign (by decide))
    · exact absurd rfl (hprinted.ne_sign (by decide))
    · rfl
  have hnot : isNotWord word = false := by
    simpa [isNotWord] using ⟨hprinted.ne_sign (by decide), hprinted.ne_sign (by decide)⟩
  have hclosing : word ≠ "]" := hprinted.ne_sign (by decide)
  simp [Phrase.canStart, hsign, hnot, hclosing]

theorem Phrase.canStart_of_isMapWord (hword : isMapWord word = true) :
    Phrase.indexed.canStart word = true := by
  rcases eq_of_isMapWord hword with rfl | rfl | rfl
  all_goals rfl

/-- A printed phrase is not empty, and it starts in a way that shows no looser phrase. -/
theorem Derives.starts (hderives : Derives (.ofPrinter known) phrase context tokens expr) :
    ∃ first rest, tokens = first :: rest ∧ phrase.canStart first = true := by
  induction hderives with
  | loosen htight hderives ih =>
      obtain ⟨first, rest, rfl, hstart⟩ := ih
      exact ⟨first, rest, rfl, Phrase.canStart_of_tighter? htight hstart⟩
  | binary htight hop hleft hright ihLeft ihRight =>
      obtain ⟨first, rest, rfl, hstart⟩ := ihLeft
      exact ⟨first, _, rfl, hstart⟩
  | compare hop hleft hright ihLeft ihRight =>
      obtain ⟨first, rest, rfl, hstart⟩ := ihLeft
      exact ⟨first, _, rfl, hstart⟩
  | not hword hderives ih =>
      refine ⟨_, _, rfl, ?_⟩
      -- the two words of the negation
      rcases eq_of_isNotWord hword with rfl | rfl
      all_goals rfl
  | sign hop hderives ih =>
      refine ⟨_, _, rfl, ?_⟩
      unfold UnaryOp.ofSign? at hop
      split at hop
      all_goals first | rfl | cases hop
  | index hcontainer hindex ihContainer ihIndex =>
      obtain ⟨first, rest, rfl, hstart⟩ := ihContainer
      exact ⟨first, _, rfl, hstart⟩
  | word hspells => exact ⟨_, [], rfl, PrintedAs.canStart hspells⟩
  | group | callGroup | emptyList | list | dict => exact ⟨_, _, rfl, rfl⟩
  | callee hfunc => exact hfunc.elim
  | argument hcall harg ihCall ihArg =>
      obtain ⟨first, rest, rfl, hstart⟩ := ihCall
      exact ⟨first, _, rfl, hstart⟩
  | lastElement helement ih => exact ih
  | element helement hmore ihElement ihMore =>
      obtain ⟨first, rest, rfl, hstart⟩ := ihElement
      exact ⟨first, _, rfl, hstart⟩
  | emptyDict hword | mapDict hword => exact ⟨_, _, rfl, Phrase.canStart_of_isMapWord hword⟩
  | lastEntry hcolon hkey hvalue ihKey ihValue =>
      obtain ⟨first, rest, rfl, hstart⟩ := ihKey
      exact ⟨first, _, rfl, hstart⟩
  | entry hcolon hkey hvalue hmore ihKey ihValue ihMore =>
      obtain ⟨first, rest, rfl, hstart⟩ := ihKey
      exact ⟨first, _, rfl, hstart⟩

end LineScript
