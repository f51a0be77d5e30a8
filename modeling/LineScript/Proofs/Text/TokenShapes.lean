import LineScript.Proofs.Text.ByteCursor

/-!
# What tokens look like

A plain text is cut into tokens from left to right (`Cut`).  Words reach as far as they can, to both
sides, so what a token is can be seen from where it stands (`Stretch.HasToken`).

Main statement: the tokens of words make up the text that the words are joined to, without the
blanks outside of its closed runs.  Each is a whole run, a structural character or a word between
other characters, and stands in the text behind those before it.  A cursor over bytes finds the same
tokens, and never cuts inside of a character (`exprTokens_of_closedRuns`).

## Strategy

Tokens are computed by splitting twice, at blanks and at structural characters, which says little
about where a token stands.  `Cut` is the same by steps from the front: a blank is left out, a
structural character is a token, and a word is one if something else follows it.  That splitting
comes to this is `cut_tokens`, by induction on the length of the text.

From there on everything is an induction on `Cut`.  A token that stands somewhere in the rest stands
there in the whole text too, unless it begins the rest and a word would go on into it; that this
does not happen is the side condition of `Stretch.HasToken.append_front`.  Over several stretches
the token is looked for in the one that it comes from (`exists_of_flatMap_tokens`).
-/

namespace LineScript

/-- The first piece of a text begins with the first character, unless that is a separator. -/
theorem Text.head?_of_splitOnP {separates : Char → Bool} {text first : List Char}
    {others : List (List Char)} (hsplit : text.splitOnP separates = first :: others) {c : Char}
    (hc : c ∈ first.head?) : c ∈ text.head? ∧ separates c = false := by
  cases text with
  | nil =>
      rw [List.splitOnP_nil] at hsplit
      cases hsplit
      cases hc
  | cons d rest =>
      obtain ⟨head, tail, hrest⟩ :=
        List.exists_cons_of_ne_nil (List.splitOnP_ne_nil separates rest)
      -- the first piece is empty, or begins with the first character
      rw [List.splitOnP_cons_eq_if_modifyHead, hrest] at hsplit
      split at hsplit
      next =>
        cases hsplit
        cases hc
      next hd =>
        cases hsplit
        cases hc
        exact ⟨rfl, Bool.eq_false_iff.mpr hd⟩

namespace ExprTokens

variable {text front back piece rest before token after : List Char}
  {tokens' earlier later : List (List Char)} {stretch : Stretch} {stretches' : List Stretch}
  {c : Char}

/-- A character of a word that is cut no further. -/
def isWordCharacter (c : Char) : Bool := !isSeparator c && !isStructural c

theorem isWordCharacter_iff :
    isWordCharacter c = true ↔ isSeparator c = false ∧ isStructural c = false := by
  simp [isWordCharacter]

theorem isWordCharacter_of_isSeparator (hc : isSeparator c = true) : isWordCharacter c = false := by
  simp [isWordCharacter, hc]

theorem isWordCharacter_of_isStructural (hc : isStructural c = true) :
    isWordCharacter c = false := by
  simp [isWordCharacter, hc]

theorem not_isSeparator_of_isStructural (hc : isStructural c = true) : isSeparator c = false := by
  rw [Bool.eq_false_iff]
  intro hseparator
  obtain rfl | rfl : c = ' ' ∨ c = '\t' := by
    rwa [isSeparator, Bool.or_eq_true, beq_iff_eq, beq_iff_eq] at hseparator
  all_goals exact absurd hc (by decide)

theorem filter_of_isWordCharacter {word : List Char}
    (hword : ∀ c ∈ word, isWordCharacter c = true) :
    (word.filter fun c => !isSeparator c) = word := by
  refine List.filter_eq_self.mpr fun c hc => ?_
  rw [(isWordCharacter_iff.mp (hword c hc)).1]
  rfl

/-- A plain text is cut from left to right: separators are left out, structural characters stand
alone, and words reach as far as they can. -/
inductive Cut : List Char → List (List Char) → Prop
  | nil : Cut [] []
  | separator {c : Char} {rest : List Char} {tokens : List (List Char)}
      (hc : isSeparator c = true) (hrest : Cut rest tokens) : Cut (c :: rest) tokens
  | structural {c : Char} {rest : List Char} {tokens : List (List Char)}
      (hc : isStructural c = true) (hrest : Cut rest tokens) : Cut (c :: rest) ([c] :: tokens)
  | word {word rest : List Char} {tokens : List (List Char)} (hne : word ≠ [])
      (hword : ∀ c ∈ word, isWordCharacter c = true)
      (hstop : ∀ c ∈ rest.head?, isWordCharacter c = false) (hrest : Cut rest tokens) :
      Cut (word ++ rest) (word :: tokens)

namespace Stretch

theorem tokens_plain_separator (hc : isSeparator c = true) (rest : List Char) :
    (plain (c :: rest)).tokens = (plain rest).tokens := by
  rw [tokens, List.splitOnP_cons_eq_if_modifyHead, if_pos hc]
  rfl

/-- A piece without separators is cut on its own, where it does not go on with the word that it
ends with. -/
theorem tokens_plain_append (hpiece : ∀ c ∈ piece, isSeparator c = false)
    (hstop : ∀ last ∈ piece.getLast?, ∀ next ∈ rest.head?,
      isSeparator next = false → isStructural last = true ∨ isStructural next = true) :
    (plain (piece ++ rest)).tokens = splitStructural piece ++ (plain rest).tokens := by
  obtain ⟨first, others, hsplit⟩ :=
    List.exists_cons_of_ne_nil (List.splitOnP_ne_nil isSeparator rest)
  -- a word and a structural character are always cut apart
  have hcut : splitStructural (piece ++ first) =
      splitStructural piece ++ splitStructural first := by
    apply List.splitBy_append
    intro last hlast next hnext
    obtain ⟨hhead, hseparator⟩ := Text.head?_of_splitOnP hsplit hnext
    rcases hstop last hlast next hhead hseparator with h | h <;> simp [h]
  rw [tokens, Text.splitOnP_append_left hpiece, hsplit, List.modifyHead_cons, List.flatMap_cons,
    hcut, tokens, hsplit, List.flatMap_cons, List.append_assoc]

theorem tokens_plain_structural (hc : isStructural c = true) (rest : List Char) :
    (plain (c :: rest)).tokens = [c] :: (plain rest).tokens := by
  rw [← List.singleton_append, tokens_plain_append]
  · rfl
  · exact List.forall_mem_singleton.mpr (not_isSeparator_of_isStructural hc)
  · intro last hlast next _ _
    cases hlast
    exact .inl hc

theorem tokens_plain_word {word : List Char} (hne : word ≠ [])
    (hword : ∀ c ∈ word, isWordCharacter c = true)
    (hstop : ∀ c ∈ rest.head?, isWordCharacter c = false) :
    (plain (word ++ rest)).tokens = word :: (plain rest).tokens := by
  rw [tokens_plain_append, splitStructural_of_not_isStructural hne]
  · rfl
  · exact fun c hc => (isWordCharacter_iff.mp (hword c hc)).2
  · exact fun c hc => (isWordCharacter_iff.mp (hword c hc)).1
  · intro _ _ next hnext hseparator
    have hnot := hstop next hnext
    rw [isWordCharacter, hseparator] at hnot
    exact .inr (by simpa using hnot)

end Stretch

/-- A character of a word begins a word that ends in front of a character of another kind. -/
theorem exists_word (hc : isWordCharacter c = true) (rest : List Char) :
    ∃ word behind, c :: rest = word ++ behind ∧ word ≠ [] ∧
      (∀ d ∈ word, isWordCharacter d = true) ∧
      (∀ d ∈ behind.head?, isWordCharacter d = false) ∧ behind.length ≤ rest.length := by
  refine ⟨c :: rest.takeWhile isWordCharacter, rest.dropWhile isWordCharacter, ?_,
    List.cons_ne_nil _ _, ?_, ?_, (List.dropWhile_sublist isWordCharacter).length_le⟩
  · rw [List.cons_append, List.takeWhile_append_dropWhile]
  · exact List.forall_mem_cons.mpr
      ⟨hc, fun d hd => List.all_eq_true.mp List.all_takeWhile d hd⟩
  · intro d hd
    have hnot := List.head?_dropWhile_not isWordCharacter rest
    rw [hd] at hnot
    simpa using hnot

/-- The tokens of a plain stretch are cut from left to right. -/
theorem cut_tokens (text : List Char) : Cut text (Stretch.plain text).tokens := by
  induction hlength : text.length using Nat.strong_induction_on generalizing text with
  | h length ih =>
      subst hlength
      cases text with
      | nil => exact .nil
      | cons c rest =>
          have hrest : Cut rest (Stretch.plain rest).tokens :=
            ih rest.length (by simp) rest rfl
          by_cases hseparator : isSeparator c = true
          · rw [Stretch.tokens_plain_separator hseparator]
            exact .separator hseparator hrest
          by_cases hstructural : isStructural c = true
          · rw [Stretch.tokens_plain_structural hstructural]
            exact .structural hstructural hrest
          have hc : isWordCharacter c = true := by simp [isWordCharacter, hseparator, hstructural]
          -- a word, as long as it goes on
          obtain ⟨word, behind, happend, hne, hword, hstop, hle⟩ := exists_word hc rest
          rw [happend, Stretch.tokens_plain_word hne hword hstop]
          exact .word hne hword hstop (ih behind.length (Nat.lt_succ_of_le hle) behind rfl)

/-! ## Where tokens stand -/

/-- The characters of a stretch that are part of a token. -/
def Stretch.visible : Stretch → List Char
  | .quoted text => quote ++ text ++ quote
  | .plain text => text.filter fun c => !isSeparator c

/-- A token of a stretch, between the text before it and the text behind it.  It is a whole run, or
a structural character, or a word between ends of the stretch and characters that are part of no
word. -/
inductive Stretch.HasToken : Stretch → List Char → List Char → List Char → Prop
  | run (text : List Char) : HasToken (.quoted text) [] (quote ++ text ++ quote) []
  | structural {before after : List Char} {c : Char} (hc : isStructural c = true) :
      HasToken (.plain (before ++ [c] ++ after)) before [c] after
  | word {before word after : List Char} (hne : word ≠ [])
      (hword : ∀ c ∈ word, isWordCharacter c = true)
      (hbefore : ∀ c ∈ before.getLast?, isWordCharacter c = false)
      (hafter : ∀ c ∈ after.head?, isWordCharacter c = false) :
      HasToken (.plain (before ++ word ++ after)) before word after

namespace Stretch.HasToken

theorem ne_nil (htoken : stretch.HasToken before token after) : token ≠ [] := by
  cases htoken with
  | run text => exact List.cons_ne_nil _ _
  | structural hc => exact List.cons_ne_nil _ _
  | word hne hword hbefore hafter => exact hne

/-- A token stays one when a text is put in front that is not the beginning of its word. -/
theorem append_front (htoken : (plain text).HasToken before token after)
    (hjoint : (∀ c ∈ front.getLast?, isWordCharacter c = false) ∨
      ∀ c ∈ text.head?, isWordCharacter c = false) :
    (plain (front ++ text)).HasToken (front ++ before) token after := by
  cases htoken with
  | structural hc =>
      rw [← List.append_assoc, ← List.append_assoc]
      exact .structural hc
  | word hne hword hbefore hafter =>
      rw [← List.append_assoc, ← List.append_assoc]
      refine .word hne hword (fun c hc => ?_) hafter
      cases before with
      | nil =>
          rw [List.append_nil] at hc
          obtain ⟨d, more, rfl⟩ := List.exists_cons_of_ne_nil hne
          -- the word begins the text, and the character in front of it is no part of a word
          refine hjoint.elim (fun hfront => hfront c hc) fun hhead => ?_
          have hnot : isWordCharacter d = false := hhead d rfl
          rw [hword d List.mem_cons_self] at hnot
          cases hnot
      | cons d more =>
          rw [List.getLast?_append_cons] at hc
          exact hbefore c hc

theorem cons (htoken : (plain text).HasToken before token after)
    (hc : isWordCharacter c = false) : (plain (c :: text)).HasToken (c :: before) token after := by
  have hlast : ∀ d ∈ [c].getLast?, isWordCharacter d = false := by
    rintro d ⟨⟩
    exact hc
  exact htoken.append_front (.inl hlast)

end Stretch.HasToken

theorem Cut.flatten_eq (hcut : Cut text tokens') :
    tokens'.flatten = text.filter fun c => !isSeparator c := by
  induction hcut with
  | nil => rfl
  | separator hc hrest ih => rw [ih, List.filter_cons_of_neg (by simp [hc])]
  | structural hc hrest ih =>
      rw [List.flatten_cons, ih,
        List.filter_cons_of_pos (by simp [not_isSeparator_of_isStructural hc])]
      rfl
  | word hne hword hstop hrest ih =>
      rw [List.flatten_cons, ih, List.filter_append, filter_of_isWordCharacter hword]

/-- A token that is cut from a text stands in it, behind the characters of the tokens before it. -/
theorem Cut.exists_hasToken (hcut : Cut text tokens')
    (htokens : tokens' = earlier ++ token :: later) :
    ∃ before after, (Stretch.plain text).HasToken before token after ∧
      earlier.flatten = before.filter fun c => !isSeparator c := by
  induction hcut generalizing earlier with
  | nil => simp at htokens
  | @separator c rest tokens hc hrest ih =>
      obtain ⟨before, after, htoken, hbefore⟩ := ih htokens
      refine ⟨c :: before, after, htoken.cons (isWordCharacter_of_isSeparator hc), ?_⟩
      rw [hbefore, List.filter_cons_of_neg (by simp [hc])]
  | @structural c rest tokens hc hrest ih =>
      cases earlier with
      | nil =>
          cases htokens
          -- the token is this one, with nothing in front
          have htoken : (Stretch.plain ([] ++ [c] ++ rest)).HasToken [] [c] rest := .structural hc
          exact ⟨[], rest, htoken, rfl⟩
      | cons first others =>
          obtain ⟨rfl, hothers⟩ := List.cons.inj htokens
          obtain ⟨before, after, htoken, hbefore⟩ := ih hothers
          refine ⟨c :: before, after, htoken.cons (isWordCharacter_of_isStructural hc), ?_⟩
          rw [List.flatten_cons, hbefore,
            List.filter_cons_of_pos (by simp [not_isSeparator_of_isStructural hc])]
          rfl
  | @word word rest tokens hne hword hstop hrest ih =>
      cases earlier with
      | nil =>
          obtain ⟨rfl, -⟩ := List.cons.inj htokens
          have htoken : (Stretch.plain ([] ++ word ++ rest)).HasToken [] word rest :=
            .word hne hword (by simp) hstop
          exact ⟨[], rest, htoken, rfl⟩
      | cons first others =>
          obtain ⟨rfl, hothers⟩ := List.cons.inj htokens
          obtain ⟨before, after, htoken, hbefore⟩ := ih hothers
          refine ⟨word ++ before, after, htoken.append_front (.inr hstop), ?_⟩
          rw [List.flatten_cons, hbefore, List.filter_append, filter_of_isWordCharacter hword]

namespace Stretch

theorem flatten_tokens (stretch : Stretch) : stretch.tokens.flatten = stretch.visible := by
  cases stretch with
  | quoted text => exact List.append_nil _
  | plain text => exact (cut_tokens text).flatten_eq

theorem exists_hasToken (htokens : stretch.tokens = earlier ++ token :: later) :
    ∃ before after, stretch.HasToken before token after ∧
      earlier.flatten = before.filter fun c => !isSeparator c := by
  cases stretch with
  | quoted text =>
      obtain ⟨rfl, rfl, -⟩ : earlier = [] ∧ token = quote ++ text ++ quote ∧ later = [] := by
        cases earlier with
        | nil =>
            cases htokens
            exact ⟨rfl, rfl, rfl⟩
        | cons first others => simp [tokens] at htokens
      exact ⟨[], [], .run text, rfl⟩
  | plain text => exact (cut_tokens text).exists_hasToken htokens

/-- A token of stretches is one of a single stretch. -/
theorem exists_of_flatMap_tokens (htokens : stretches'.flatMap tokens = earlier ++ token :: later) :
    ∃ front stretch back first last, stretches' = front ++ stretch :: back ∧
      stretch.tokens = first ++ token :: last ∧ earlier = front.flatMap tokens ++ first := by
  induction stretches' generalizing earlier with
  | nil => simp at htokens
  | cons stretch rest ih =>
      -- the stretch is in front of the token, unless the token is behind nothing of the rest
      have hrest (more : List (List Char)) (hearlier : earlier = stretch.tokens ++ more)
          (hmore : rest.flatMap tokens = more ++ token :: later) :
          ∃ front stretch' back first last, stretch :: rest = front ++ stretch' :: back ∧
            stretch'.tokens = first ++ token :: last ∧ earlier = front.flatMap tokens ++ first := by
        obtain ⟨front, stretch', back, first, last, rfl, htoken, rfl⟩ := ih hmore
        refine ⟨stretch :: front, stretch', back, first, last, rfl, htoken, ?_⟩
        rw [hearlier, List.flatMap_cons, List.append_assoc]
      rw [List.flatMap_cons] at htokens
      rcases List.append_eq_append_iff.mp htokens with
        ⟨more, hearlier, hmore⟩ | ⟨more, hstretch, hmore⟩
      · exact hrest more hearlier hmore
      · cases more with
        | nil =>
            rw [List.append_nil] at hstretch
            exact hrest [] (by rw [hstretch, List.append_nil]) hmore.symm
        | cons first others =>
            obtain ⟨rfl, -⟩ := List.cons.inj hmore
            exact ⟨[], stretch, rest, earlier, others, rfl, hstretch, rfl⟩

end Stretch

/-- A token stands in one of the stretches, behind all characters of other tokens and no more. -/
def Stands (stretches : List Stretch) (earlier : List (List Char)) (token : List Char) : Prop :=
  ∃ front stretch back before after, stretches = front ++ stretch :: back ∧
    stretch.HasToken before token after ∧
    earlier.flatten = front.flatMap Stretch.visible ++ before.filter fun c => !isSeparator c

theorem flatten_flatMap_tokens (stretches : List Stretch) :
    (stretches.flatMap Stretch.tokens).flatten = stretches.flatMap Stretch.visible := by
  induction stretches with
  | nil => rfl
  | cons stretch rest ih =>
      rw [List.flatMap_cons, List.flatten_append, ih, Stretch.flatten_tokens, List.flatMap_cons]

theorem stands_of_flatMap_tokens
    (htokens : stretches'.flatMap Stretch.tokens = earlier ++ token :: later) :
    token ≠ [] ∧ Stands stretches' earlier token := by
  obtain ⟨front, stretch, back, first, last, hstretches, htoken, rfl⟩ :=
    Stretch.exists_of_flatMap_tokens htokens
  obtain ⟨before, after, hstands, hbefore⟩ := Stretch.exists_hasToken htoken
  refine ⟨hstands.ne_nil, front, stretch, back, before, after, hstretches, hstands, ?_⟩
  rw [List.flatten_append, flatten_flatMap_tokens, hbefore]

end ExprTokens

theorem map_toList_exprTokens (words : List String) :
    (exprTokens words).map String.toList = ExprTokens.ofText (joinWords words).toList := by
  simp [exprTokens, Function.comp_def]

open ExprTokens in
/-- **Tokens lose and invent nothing.**  The tokens of words are what the joined words are without
the blanks outside of closed runs.  None is empty, each has one of the three shapes where it stands,
and a cursor over bytes reads all of them without a cut inside of a character. -/
theorem exprTokens_of_closedRuns (words : List String) :
    ∃ stretches,
      (∀ other, ClosedRuns (joinWords words).toList other ↔ other = stretches) ∧
      stretches.flatMap Stretch.source = (joinWords words).toList ∧
      ((exprTokens words).map String.toList).flatten = stretches.flatMap Stretch.visible ∧
      (∀ earlier token later, exprTokens words = earlier ++ token :: later →
        token ≠ "" ∧ Stands stretches (earlier.map String.toList) token.toList) ∧
      (ByteCursor.tokens? (joinWords words).toList 0 []).map (List.map String.ofList) =
        some (exprTokens words) := by
  refine ⟨stretches (joinWords words).toList, fun other => ?_, flatMap_source_stretches _, ?_,
    fun earlier token later htokens => ?_, ?_⟩
  · rw [closedRuns_iff, eq_comm]
  · rw [map_toList_exprTokens, ofText, flatten_flatMap_tokens]
  · have hmap := congrArg (List.map String.toList) htokens
    rw [map_toList_exprTokens, List.map_append, List.map_cons] at hmap
    -- each token stands in its stretch behind those before it
    obtain ⟨hne, hstands⟩ := stands_of_flatMap_tokens hmap
    exact ⟨by simpa using hne, hstands⟩
  · rw [ByteCursor.tokens?_eq]
    rfl

-- the first two of five backticks close a run, and nothing closes what the next two could open
example : exprTokens ["a\x60\x60\x60", "b", "\x60\x60\x60\x60\x60c|d"] =
    ["a", "\x60\x60\x60 b \x60\x60", "\x60\x60\x60c", "|", "d"] := by
  decide +kernel

end LineScript
