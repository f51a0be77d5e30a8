import LineScript.Proofs.Text.Written

/-!
# Tokens on both sides of a blank

A blank parts the tokens of a text, unless it stands in a quoted stretch.  Whether it does is
decided behind it: a double backtick is only open in front of the blank if another one follows.  So
a blank without a backtick behind it parts the tokens, whatever stands in front of it.

Main statement: words without backticks have tokens of their own, behind any word
(`exprTokens_cons_of_not_mem`).
-/

namespace LineScript

namespace ExprTokens

variable {front back : List Char}

/-! ## Stretches -/

/-- A text as one plain stretch, if there is anything of it. -/
def Stretch.ofPlain (text : List Char) : List Stretch :=
  if text.isEmpty then [] else [.plain text]

theorem Stretch.tokens_ofPlain (text : List Char) :
    (ofPlain text).flatMap tokens = (text.splitOnP isSeparator).flatMap splitStructural := by
  cases text with
  | nil => rfl
  | cons c rest => exact List.flatMap_singleton ..

theorem Stretch.push_ofPlain (c : Char) (text : List Char) :
    push c (ofPlain text) = [.plain (c :: text)] := by
  cases text <;> rfl

theorem Stretch.push_append {stretches : List Stretch} (hne : stretches ≠ []) (c : Char)
    (more : List Stretch) : push c (stretches ++ more) = push c stretches ++ more := by
  cases stretches with
  | nil => exact absurd rfl hne
  | cons stretch rest => cases stretch <;> rfl

theorem stretches_of_not_mem (hback : '\x60' ∉ back) : stretches back = Stretch.ofPlain back := by
  induction back with
  | nil => rw [stretches]; rfl
  | cons c rest ih =>
      have hc : c ≠ '\x60' := fun heq => hback (heq ▸ List.mem_cons_self)
      rw [stretches_cons hc, ih fun hmem => hback (List.mem_cons_of_mem c hmem),
        Stretch.push_ofPlain]
      rfl

theorem cutAtQuote_eq_none (hback : '\x60' ∉ back) : cutAtQuote back = none := by
  cases hcut : cutAtQuote back with
  | none => rfl
  | some parts =>
      obtain ⟨inside, after⟩ := parts
      refine absurd ?_ hback
      rw [append_of_cutAtQuote hcut]
      simp

/-- Text that does not begin with a double backtick does not with a blank behind it either. -/
theorem not_quote_append {c : Char} (hquote : ∀ more, c = '\x60' → front = '\x60' :: more → False)
    (more : List Char) (hc : c = '\x60') (happend : front ++ ' ' :: back = '\x60' :: more) :
    False := by
  cases front with
  | nil => cases happend
  | cons d rest =>
      obtain ⟨rfl, -⟩ := List.cons.inj happend
      exact hquote rest hc rfl

/-- Behind a blank no quote closes that is open in front of it. -/
theorem cutAtQuote_append (hback : '\x60' ∉ back) (front : List Char) :
    cutAtQuote (front ++ ' ' :: back) =
      (cutAtQuote front).map fun parts => (parts.1, parts.2 ++ ' ' :: back) := by
  fun_induction cutAtQuote front with
  | case1 => exact cutAtQuote_eq_none (by simpa using hback)
  | case2 rest => rfl
  | case3 c rest hquote ih =>
      rw [List.cons_append, cutAtQuote, ih, Option.map_map, Option.map_map]
      · rfl
      · exact not_quote_append hquote

/-- Text behind a blank without backticks is put to the plain stretch that the text in front of the
blank ends with. -/
theorem exists_stretches_append (hback : '\x60' ∉ back) (front : List Char) :
    ∃ init tail, stretches front = init ++ Stretch.ofPlain tail ∧
      stretches (front ++ ' ' :: back) = init ++ [.plain (tail ++ ' ' :: back)] := by
  -- a character in front goes the same way on both sides
  have hpush (c : Char) {text : List Char}
      (htext : ∃ init tail, stretches text = init ++ Stretch.ofPlain tail ∧
        stretches (text ++ ' ' :: back) = init ++ [.plain (tail ++ ' ' :: back)]) :
      ∃ init tail, Stretch.push c (stretches text) = init ++ Stretch.ofPlain tail ∧
        Stretch.push c (stretches (text ++ ' ' :: back)) =
          init ++ [.plain (tail ++ ' ' :: back)] := by
    obtain ⟨init, tail, hfront, happend⟩ := htext
    rw [hfront, happend]
    by_cases hinit : init = []
    · subst hinit
      exact ⟨[], c :: tail, Stretch.push_ofPlain c tail, rfl⟩
    · exact ⟨Stretch.push c init, tail, Stretch.push_append hinit c _,
        Stretch.push_append hinit c _⟩
  fun_induction stretches front with
  | case1 =>
      refine ⟨[], [], rfl, ?_⟩
      rw [List.nil_append, stretches_of_not_mem (by simpa using hback)]
      rfl
  | case2 rest inside after hcut _ ih =>
      obtain ⟨init, tail, hfront, happend⟩ := ih
      -- the run closes in front of the blank, as it did
      have hbehind : cutAtQuote (rest ++ ' ' :: back) = some (inside, after ++ ' ' :: back) := by
        rw [cutAtQuote_append hback, hcut]
        rfl
      refine ⟨.quoted inside :: init, tail, by rw [hfront]; rfl, ?_⟩
      rw [List.cons_append, List.cons_append, stretches_of_cutAtQuote hbehind, happend]
      rfl
  | case3 rest hcut ih =>
      -- nothing behind the blank closes what is open in front of it
      have hbehind : cutAtQuote (rest ++ ' ' :: back) = none := by
        rw [cutAtQuote_append hback, hcut]
        rfl
      rw [List.cons_append, List.cons_append, stretches_of_cutAtQuote_eq_none hbehind]
      exact hpush '\x60' ih
  | case4 c rest hquote ih =>
      rw [List.cons_append, stretches]
      · exact hpush c ih
      · exact not_quote_append hquote

/-- A blank parts the tokens in front of it from those behind it, where no backtick follows. -/
theorem ofText_append_blank (hback : '\x60' ∉ back) (front : List Char) :
    ofText (front ++ ' ' :: back) = ofText front ++ ofText back := by
  obtain ⟨init, tail, hfront, happend⟩ := exists_stretches_append hback front
  rw [ofText, ofText, ofText, hfront, happend, stretches_of_not_mem hback, List.flatMap_append,
    List.flatMap_append, Stretch.tokens_ofPlain, Stretch.tokens_ofPlain, List.flatMap_singleton,
    Stretch.tokens, List.splitOnP_append_cons _ _ (by decide), List.flatMap_append,
    List.append_assoc]

end ExprTokens

/-- Words without backticks have tokens of their own, behind any word. -/
theorem exprTokens_cons_of_not_mem {words : List String} (hne : words ≠ [])
    (hwords : '\x60' ∉ (joinWords words).toList) (word : String) :
    exprTokens (word :: words) = exprTokens [word] ++ exprTokens words := by
  obtain ⟨next, others, rfl⟩ := List.exists_cons_of_ne_nil hne
  have hsingle : joinWords [word] = word := String.intercalate_singleton
  rw [exprTokens, toList_joinWords_cons_cons, ExprTokens.ofText_append_blank hwords,
    List.map_append, exprTokens, exprTokens, hsingle]

end LineScript
