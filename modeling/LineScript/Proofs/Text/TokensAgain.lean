import LineScript.Proofs.Text.TokenShapes

/-!
# Cutting tokens again

Main statement: tokens that are joined by blanks and cut again are the same tokens
(`exprTokens_exprTokens`).

Blanks between tokens move the backticks apart, and could break a run, or leave a double backtick
without the one that closes it.  They do neither, because backticks side by side are in one token.
So the tokens of a plain text, each with a blank behind it (`spaced`), have as many double backticks
as the text (`Cut.quoteCount_spaced`).  What is no run stays none, and no double backtick appears in
front of the one that opens a run.  Between runs the blanks only part what is cut anyway
(`Cut.tokens_spaced`).
-/

namespace LineScript

namespace ExprTokens

variable {text front inside : List Char} {tokens' : List (List Char)} {stretches' : List Stretch}
  {c : Char}

/-- Tokens with a blank behind each. -/
def spaced (tokens : List (List Char)) : List Char := tokens.flatMap (· ++ [' '])

theorem spaced_cons (token : List Char) (tokens : List (List Char)) :
    spaced (token :: tokens) = token ++ ' ' :: spaced tokens := by
  rw [spaced, List.flatMap_cons, ← List.append_cons]
  rfl

theorem spaced_append (front back : List (List Char)) :
    spaced (front ++ back) = spaced front ++ spaced back :=
  List.flatMap_append

/-! ## Tokens of a plain text -/

theorem ne_backtick_of_not_isWordCharacter (hc : isWordCharacter c = false) : c ≠ '\x60' := by
  rintro rfl
  exact absurd hc (by decide)

/-- Behind the end of a word, double backticks are counted apart. -/
theorem quoteCount_append_of_stop {rest : List Char}
    (hstop : ∀ c ∈ rest.head?, isWordCharacter c = false) (word : List Char) :
    quoteCount (word ++ rest) = quoteCount word + quoteCount rest := by
  cases rest with
  | nil => rw [List.append_nil]; rfl
  | cons c more =>
      have hc : c ≠ '\x60' := ne_backtick_of_not_isWordCharacter (hstop c rfl)
      rw [quoteCount_append_cons hc, quoteCount_cons_of_ne hc]

/-- Blanks between the tokens leave as many double backticks as there are in the text. -/
theorem Cut.quoteCount_spaced (hcut : Cut text tokens') (behind : List Char) :
    quoteCount (spaced tokens' ++ behind) = quoteCount text + quoteCount behind := by
  induction hcut with
  | nil => exact (Nat.zero_add _).symm
  | separator hc hrest ih =>
      rw [quoteCount_cons_of_ne
        (ne_backtick_of_not_isWordCharacter (isWordCharacter_of_isSeparator hc)), ih]
  | structural hc hrest ih =>
      -- neither the character nor the blank behind it is a backtick
      have hne := ne_backtick_of_not_isWordCharacter (isWordCharacter_of_isStructural hc)
      rw [spaced_cons, List.append_assoc, List.singleton_append, List.cons_append,
        quoteCount_cons_of_ne hne, quoteCount_cons_of_ne (by decide), ih,
        quoteCount_cons_of_ne hne]
  | word hne hword hstop hrest ih =>
      -- a word ends in front of a blank in one text and of what stops it in the other
      rw [spaced_cons, List.append_assoc, List.cons_append, quoteCount_append_cons (by decide), ih,
        quoteCount_append_of_stop hstop, Nat.add_assoc]

/-- Blanks between the tokens of a plain text cut nothing else. -/
theorem Cut.tokens_spaced (hcut : Cut text tokens') :
    (Stretch.plain (spaced tokens')).tokens = tokens' := by
  induction hcut with
  | nil => rfl
  | separator hc hrest ih => exact ih
  | structural hc hrest ih =>
      rw [spaced_cons, List.singleton_append, Stretch.tokens_plain_structural hc,
        Stretch.tokens_plain_separator (by decide), ih]
  | word hne hword hstop hrest ih =>
      rw [spaced_cons, Stretch.tokens_plain_word hne hword (by simp; decide),
        Stretch.tokens_plain_separator (by decide), ih]

/-! ## Tokens of stretches -/

theorem Unquoted.quoteCount_eq_zero (hfront : Unquoted front) : quoteCount front = 0 := by
  apply quoteCount_eq_zero_iff.mpr
  intro hquote
  exact hfront (List.IsInfix.trans hquote (List.prefix_append front _).isInfix)

/-- No double backtick appears in front of a run. -/
theorem Cut.unquoted_spaced (hcut : Cut front tokens') (hfront : Unquoted front) :
    Unquoted (spaced tokens') := by
  rw [unquoted_iff, hcut.quoteCount_spaced, hfront.quoteCount_eq_zero]
  rfl

theorem Cut.not_hasRun_spaced (hcut : Cut text tokens') (hnone : ¬ HasRun text) :
    ¬ HasRun (spaced tokens') := by
  have hcount : quoteCount (spaced tokens' ++ []) = quoteCount text := hcut.quoteCount_spaced []
  rw [List.append_nil] at hcount
  rwa [hasRun_iff, hcount, ← hasRun_iff]

/-- The tokens in front of a run, the run, and the tokens behind it. -/
theorem flatMap_tokens_run (front inside : List Char) (stretches : List Stretch) :
    (Stretch.ofPlain front ++ .quoted inside :: stretches).flatMap Stretch.tokens =
      (Stretch.plain front).tokens ++
        (quote ++ inside ++ quote) :: stretches.flatMap Stretch.tokens := by
  rw [List.flatMap_append, Stretch.tokens_ofPlain]
  rfl

/-- With a blank behind each, the tokens of stretches are cut out of their text again. -/
theorem ClosedRuns.ofText_spaced (hruns : ClosedRuns text stretches') :
    ofText (spaced (stretches'.flatMap Stretch.tokens)) = stretches'.flatMap Stretch.tokens := by
  induction hruns with
  | @none text hnone =>
      -- no run: the tokens are one plain stretch, and stay one
      have hcut := cut_tokens text
      rw [Stretch.tokens_ofPlain, ofText, ← Stretch.tokens,
        stretches_of_not_hasRun (hcut.not_hasRun_spaced hnone), Stretch.tokens_ofPlain,
        ← Stretch.tokens, hcut.tokens_spaced]
  | @run front inside back stretches' hfront hinside hback ih =>
      have hcut := cut_tokens front
      calc ofText (spaced ((Stretch.ofPlain front ++ .quoted inside :: stretches').flatMap
            Stretch.tokens))
          -- the run is found where it was, since nothing in front of it opens another
          = ofText (spaced (Stretch.plain front).tokens ++ quote ++ inside ++ quote ++
              ' ' :: spaced (stretches'.flatMap Stretch.tokens)) := by
            rw [flatMap_tokens_run, spaced_append, spaced_cons]
            simp only [List.append_assoc]
        _ = (Stretch.plain (spaced (Stretch.plain front).tokens)).tokens ++
              (quote ++ inside ++ quote) ::
                ofText (' ' :: spaced (stretches'.flatMap Stretch.tokens)) := by
            rw [ofText, stretches_run (hcut.unquoted_spaced hfront) hinside, flatMap_tokens_run,
              ofText]
        _ = (Stretch.plain front).tokens ++
              (quote ++ inside ++ quote) :: stretches'.flatMap Stretch.tokens := by
            rw [hcut.tokens_spaced, ofText_separator (by decide) (by decide), ih]
        _ = (Stretch.ofPlain front ++ .quoted inside :: stretches').flatMap Stretch.tokens :=
            (flatMap_tokens_run front inside stretches').symm

/-- Joined tokens are the tokens with a blank behind each, but for the last blank. -/
theorem joinWords_append_blank {tokens : List String} (hne : tokens ≠ []) :
    (joinWords tokens).toList ++ [' '] = spaced (tokens.map String.toList) := by
  induction tokens with
  | nil => exact absurd rfl hne
  | cons token rest ih =>
      cases rest with
      | nil => simp [joinWords, spaced]
      | cons next others =>
          rw [List.map_cons, spaced_cons, toList_joinWords_cons_cons, List.append_assoc,
            List.cons_append, ih (List.cons_ne_nil next others)]

/-- The last blank does not matter. -/
theorem ofText_joinWords (tokens : List String) :
    ofText (joinWords tokens).toList = ofText (spaced (tokens.map String.toList)) := by
  cases tokens with
  | nil => rfl
  | cons token rest =>
      have hempty : ofText [] = [] := by rw [ofText, stretches, List.flatMap_nil]
      rw [← joinWords_append_blank (List.cons_ne_nil token rest),
        ofText_append_blank List.not_mem_nil, hempty, List.append_nil]

end ExprTokens

/-- **Cutting tokens again changes nothing.**  Tokens that are taken for words, joined and cut again
are the same tokens. -/
theorem exprTokens_exprTokens (words : List String) :
    exprTokens (exprTokens words) = exprTokens words := by
  have hruns : ExprTokens.ClosedRuns (joinWords words).toList
      (ExprTokens.stretches (joinWords words).toList) := ExprTokens.closedRuns_iff.mpr rfl
  have hagain : ExprTokens.ofText (joinWords (exprTokens words)).toList =
      ExprTokens.ofText (joinWords words).toList := by
    rw [ExprTokens.ofText_joinWords, map_toList_exprTokens]
    exact hruns.ofText_spaced
  rw [exprTokens, hagain, exprTokens]

end LineScript
