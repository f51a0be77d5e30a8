import LineScript.Expr.Tokens
import LineScript.Proofs.Text.Trim
import Mathlib.Data.List.SplitBy

/-!
# Characters of words and tokens

Cutting a text into pieces, words or tokens makes up no character.  Main statements: a word consists
of characters of its text that are no white space (`mem_of_mem_words`), and a token consists of
characters of the words that it is cut from, and of the blanks between them
(`mem_of_mem_exprTokens`).
-/

namespace LineScript

/-- A text of allowed characters only. -/
def OnlyOf (allowed : Char → Prop) (text : String) : Prop := ∀ c ∈ text.toList, allowed c

variable {allowed : Char → Prop}

instance [DecidablePred allowed] (text : String) : Decidable (OnlyOf allowed text) :=
  List.decidableBAll allowed text.toList

theorem OnlyOf.append {front back : String} (hfront : OnlyOf allowed front)
    (hback : OnlyOf allowed back) : OnlyOf allowed (front ++ back) := by
  intro c hc
  rw [String.toList_append] at hc
  exact (List.mem_append.mp hc).elim (hfront c) (hback c)

theorem OnlyOf.imp {allowed' : Char → Prop} {text : String} (htext : OnlyOf allowed text)
    (himp : ∀ c, allowed c → allowed' c) : OnlyOf allowed' text :=
  fun c hc => himp c (htext c hc)

/-- Words with single blanks between them. -/
theorem OnlyOf.joinWords {words : List String} (hblank : allowed ' ')
    (hwords : ∀ word ∈ words, OnlyOf allowed word) : OnlyOf allowed (joinWords words) := by
  induction words with
  | nil => simp [OnlyOf, LineScript.joinWords]
  | cons word rest ih =>
      obtain ⟨hword, hrest⟩ := List.forall_mem_cons.mp hwords
      cases rest with
      | nil => simpa [LineScript.joinWords] using hword
      | cons next others =>
          -- a blank stands between two words
          have hseparator : OnlyOf allowed " " := by
            intro c hc
            obtain rfl : c = ' ' := by simpa using hc
            exact hblank
          rw [LineScript.joinWords, String.intercalate_cons_cons]
          exact (hword.append hseparator).append (ih hrest)

/-! ## Pieces and words -/

namespace Text

/-- The pieces between separators consist of the other characters of the text. -/
theorem mem_of_mem_splitOnP {separates : Char → Bool} {text piece : List Char}
    (hpiece : piece ∈ text.splitOnP separates) {c : Char} (hc : c ∈ piece) :
    c ∈ text ∧ separates c = false := by
  have hflatten := List.mem_flatten.mpr ⟨piece, hpiece, hc⟩
  rw [flatten_splitOnP, List.mem_filter, Bool.not_eq_true'] at hflatten
  exact hflatten

/-- Words consist of the characters of their text that are no white space. -/
theorem mem_of_mem_words {text word : List Char} (hword : word ∈ words text) {c : Char}
    (hc : c ∈ word) : c ∈ text ∧ isBlank c = false :=
  mem_of_mem_splitOnP (List.mem_filter.mp hword).1 hc

end Text

/-! ## Tokens -/

namespace ExprTokens

/-- The text of a stretch as it is written. -/
def Stretch.source : Stretch → List Char
  | .quoted text => "\x60\x60".toList ++ text ++ "\x60\x60".toList
  | .plain text => text

theorem flatMap_source_push (c : Char) (stretches : List Stretch) :
    (Stretch.push c stretches).flatMap Stretch.source = c :: stretches.flatMap Stretch.source := by
  unfold Stretch.push
  split <;> rfl

theorem append_of_cutAtQuote {text inside after : List Char}
    (hcut : cutAtQuote text = some (inside, after)) :
    text = inside ++ "\x60\x60".toList ++ after := by
  fun_induction cutAtQuote text generalizing inside with
  | case1 => cases hcut
  | case2 rest =>
      cases hcut
      rfl
  | case3 c rest _ ih =>
      obtain ⟨⟨inner, tail⟩, hinner, heq⟩ := Option.map_eq_some_iff.mp hcut
      cases heq
      rw [ih hinner]
      rfl

/-- Cutting a text into stretches loses nothing. -/
theorem flatMap_source_stretches (text : List Char) :
    (stretches text).flatMap Stretch.source = text := by
  fun_induction stretches text with
  | case1 => rfl
  | case2 rest inside after hcut _ ih =>
      rw [List.flatMap_cons, ih, Stretch.source, append_of_cutAtQuote hcut]
      rfl
  | case3 rest hcut ih => rw [flatMap_source_push, ih]
  | case4 c rest _ ih => rw [flatMap_source_push, ih]

theorem mem_of_mem_tokens {stretch : Stretch} {token : List Char} (htoken : token ∈ stretch.tokens)
    {c : Char} (hc : c ∈ token) : c ∈ stretch.source := by
  cases stretch with
  | quoted text =>
      obtain rfl := List.mem_singleton.mp htoken
      exact hc
  | plain text =>
      obtain ⟨piece, hpiece, hmem⟩ := List.mem_flatMap.mp htoken
      have hpieceOf : c ∈ piece := by
        rw [← List.flatten_splitBy (fun left right => !isStructural left && !isStructural right)
          piece]
        exact List.mem_flatten.mpr ⟨token, hmem, hc⟩
      exact (Text.mem_of_mem_splitOnP hpiece hpieceOf).1

end ExprTokens

/-- Tokens consist of the characters of the words, and of the blanks between words. -/
theorem mem_of_mem_exprTokens {words : List String} {token : String}
    (htoken : token ∈ exprTokens words) {c : Char} (hc : c ∈ token.toList) :
    c ∈ (joinWords words).toList := by
  obtain ⟨chars, hchars, rfl⟩ := List.mem_map.mp htoken
  obtain ⟨stretch, hstretch, hmem⟩ := List.mem_flatMap.mp hchars
  rw [String.toList_ofList] at hc
  rw [← ExprTokens.flatMap_source_stretches (joinWords words).toList]
  exact List.mem_flatMap.mpr ⟨stretch, hstretch, ExprTokens.mem_of_mem_tokens hmem hc⟩

theorem OnlyOf.exprTokens {words : List String} (hblank : allowed ' ')
    (hwords : ∀ word ∈ words, OnlyOf allowed word) :
    ∀ token ∈ exprTokens words, OnlyOf allowed token :=
  fun _ htoken c hc => OnlyOf.joinWords hblank hwords c (mem_of_mem_exprTokens htoken hc)

end LineScript
