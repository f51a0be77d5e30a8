import LineScript.Proofs.Text.Written

/-!
# Markers among tokens

The arrows of a line are looked for among its words, and expressions are read from its tokens.  A
word that is not cut any further is a token, or stands in a quoted text.  Main statement: words
have no marker among them if none of the tokens that they are cut into has a word that is one
(`ofMarker?_of_exprTokens`).

## Strategy

The words are joined by blanks, and the text is cut into stretches, plain and quoted ones.  A marker
stands between blanks, while a stretch between double backticks may begin and end anywhere.  Where
two stretches meet there is a backtick, since plain stretches do not stand side by side
(`isChain_push`), and so no marker reaches from one into the next (`exists_stretch_of_mem`).

Inside of a plain stretch the marker is a token of its own.  In a quoted one it is a word of the
token that the stretch is, because white space parts words there as blanks do.
-/

namespace LineScript

/-! ## Pieces -/

namespace Text

variable {separates separates' : Char → Bool} {text piece : List Char}

/-- Cutting at more characters cuts the pieces. -/
theorem flatMap_splitOnP (himp : ∀ c, separates c = true → separates' c = true)
    (text : List Char) :
    (text.splitOnP separates).flatMap (List.splitOnP separates') = text.splitOnP separates' := by
  induction text with
  | nil => simp [List.splitOnP_nil]
  | cons c text ih =>
      obtain ⟨head, pieces, hsplit⟩ :=
        List.exists_cons_of_ne_nil (List.splitOnP_ne_nil separates text)
      -- the first piece is cut further, and the character belongs to its first part
      obtain ⟨head', pieces', hhead⟩ :=
        List.exists_cons_of_ne_nil (List.splitOnP_ne_nil separates' head)
      rw [List.splitOnP_cons_eq_if_modifyHead, List.splitOnP_cons_eq_if_modifyHead, ← ih, hsplit]
      by_cases hc : separates c = true
      · rw [if_pos hc, if_pos (himp c hc), List.flatMap_cons, List.splitOnP_nil]
        rfl
      · rw [if_neg hc, List.modifyHead_cons, List.flatMap_cons, List.flatMap_cons,
          List.splitOnP_cons_eq_if_modifyHead, hhead]
        split <;> rfl

/-- A piece in which a text would not be cut at more characters either is one of those pieces. -/
theorem mem_splitOnP_of_imp (himp : ∀ c, separates c = true → separates' c = true)
    (hpiece : ∀ c ∈ piece, separates' c = false) (hmem : piece ∈ text.splitOnP separates) :
    piece ∈ text.splitOnP separates' := by
  rw [← flatMap_splitOnP himp]
  refine List.mem_flatMap.mpr ⟨piece, hmem, ?_⟩
  rw [List.splitOnP_eq_singleton hpiece]
  exact List.mem_cons_self

end Text

/-! ## Stretches -/

namespace ExprTokens

/-- Two stretches beside each other are not both plain. -/
def Alternate : Stretch → Stretch → Prop
  | .plain _, .plain _ => False
  | _, _ => True

theorem isChain_push (c : Char) {stretches : List Stretch} (hchain : stretches.IsChain Alternate) :
    (Stretch.push c stretches).IsChain Alternate := by
  unfold Stretch.push
  split
  next text rest =>
    obtain ⟨hnext, hrest⟩ := List.isChain_cons.mp hchain
    refine List.isChain_cons.mpr ⟨fun next hmem => ?_, hrest⟩
    -- two plain stretches do not stand side by side
    have halternate := hnext next hmem
    cases next with
    | quoted _ => trivial
    | plain _ => exact halternate.elim
  next hplain =>
    refine List.isChain_cons.mpr ⟨fun next hnext => ?_, hchain⟩
    cases next with
    | quoted text => trivial
    | plain text =>
        obtain ⟨rest, rfl⟩ := List.head?_eq_some_iff.mp hnext
        exact absurd rfl (hplain text rest)

theorem isChain_stretches (text : List Char) : (stretches text).IsChain Alternate := by
  fun_induction stretches text with
  | case1 => exact .nil
  | case2 rest inside after hcut _ ih =>
      exact List.isChain_cons.mpr ⟨fun next hnext => by cases next <;> trivial, ih⟩
  | case3 rest hcut ih => exact isChain_push _ ih
  | case4 c rest _ ih => exact isChain_push _ ih

/-- A word that is cut neither at white space nor at structural characters, and has no backtick. -/
structure Uncut (word : List Char) : Prop where
  ne_nil : word ≠ []
  plain : ∀ c ∈ word, Text.isBlank c = false ∧ c ≠ '\x60'
  whole : splitStructural word = [word]

variable {word text : List Char}

theorem isBlank_of_isSeparator {c : Char} (hc : isSeparator c = true) : Text.isBlank c = true := by
  cases hblank : Text.isBlank c with
  | true => rfl
  | false =>
      rw [not_isSeparator hblank] at hc
      cases hc

/-- A word between the blanks of a stretch is one of its tokens, or a word of its only token. -/
theorem exists_token_of_mem_source {stretch : Stretch} (hword : Uncut word)
    (hmem : word ∈ stretch.source.splitOnP (· == ' ')) :
    ∃ token ∈ stretch.tokens, word ∈ Text.words token := by
  have hseparator (c : Char) (hc : (c == ' ') = true) : isSeparator c = true := by
    simp [isSeparator, beq_iff_eq.mp hc]
  have hne : (!word.isEmpty) = true := by simpa using hword.ne_nil
  cases stretch with
  | quoted text =>
      have hpiece : word ∈ (Stretch.quoted text).source.splitOnP Text.isBlank :=
        Text.mem_splitOnP_of_imp (fun c hc => isBlank_of_isSeparator (hseparator c hc))
          (fun c hc => (hword.plain c hc).1) hmem
      exact ⟨_, List.mem_singleton_self _, List.mem_filter.mpr ⟨hpiece, hne⟩⟩
  | plain text =>
      -- in a plain stretch the word is a piece between separators, and is not cut
      have hpiece : word ∈ text.splitOnP isSeparator :=
        Text.mem_splitOnP_of_imp hseparator
          (fun c hc => not_isSeparator (hword.plain c hc).1) hmem
      refine ⟨word, List.mem_flatMap.mpr ⟨word, hpiece, ?_⟩, ?_⟩
      · rw [hword.whole]
        exact List.mem_singleton_self word
      · rw [Text.words_of_not_blank hword.ne_nil fun c hc => (hword.plain c hc).1]
        exact List.mem_singleton_self word

/-- The last piece of a quoted stretch ends with a backtick. -/
theorem mem_last_of_quoted {front : List (List Char)} {last : List Char}
    (hsplit : (Stretch.quoted text).source.splitOnP (· == ' ') = front ++ [last]) :
    '\x60' ∈ last := by
  have hends : OnlyOf (fun c => (c == ' ') = false) "\x60\x60" := by decide
  obtain ⟨front', last', -, happend⟩ :=
    Text.splitOnP_append_right hends ("\x60\x60".toList ++ text)
  have hlast := (List.append_inj' (hsplit.symm.trans happend) rfl).2
  obtain rfl := (List.cons.inj hlast).1
  simp

/-- The first piece of a text that begins with a backtick begins with it. -/
theorem mem_first_of_backtick {first : List Char} {back : List (List Char)}
    (hsplit : ('\x60' :: text).splitOnP (· == ' ') = first :: back) : '\x60' ∈ first := by
  rw [List.splitOnP_cons_eq_if_modifyHead, if_neg (by decide)] at hsplit
  cases hpieces : text.splitOnP (· == ' ') with
  | nil => exact absurd hpieces (List.splitOnP_ne_nil _ text)
  | cons head pieces =>
      rw [hpieces, List.modifyHead_cons] at hsplit
      obtain rfl := (List.cons.inj hsplit).1
      exact List.mem_cons_self

theorem exists_stretch_of_mem {stretches : List Stretch} (hchain : stretches.IsChain Alternate)
    (hword : Uncut word)
    (hmem : word ∈ (stretches.flatMap Stretch.source).splitOnP (· == ' ')) :
    ∃ stretch ∈ stretches, word ∈ stretch.source.splitOnP (· == ' ') := by
  induction stretches with
  | nil =>
      rw [List.flatMap_nil, List.splitOnP_nil, List.mem_singleton] at hmem
      exact absurd hmem hword.ne_nil
  | cons stretch rest ih =>
      obtain ⟨hnext, hrest⟩ := List.isChain_cons.mp hchain
      obtain ⟨front, last, first, back, hstretch, hbehind, happend⟩ :=
        Text.exists_splitOnP_append (· == ' ') stretch.source (rest.flatMap Stretch.source)
      rw [List.flatMap_cons, happend, List.mem_append, List.mem_cons] at hmem
      rcases hmem with hfront | hmiddle | hback
      · exact ⟨stretch, List.mem_cons_self, hstretch ▸ List.mem_append_left _ hfront⟩
      · -- with a backtick at this end or at the next beginning the middle piece is no such word
        have hbacktick : '\x60' ∉ word := fun hmem => (hword.plain _ hmem).2 rfl
        rw [hmiddle, List.mem_append, not_or] at hbacktick
        cases stretch with
        | quoted text => exact absurd (mem_last_of_quoted hstretch) hbacktick.1
        | plain text =>
            cases rest with
            | nil =>
                obtain ⟨rfl, -⟩ : first = [] ∧ back = [] := by
                  simpa [List.splitOnP_nil] using hbehind
                rw [List.append_nil] at hmiddle
                exact ⟨_, List.mem_cons_self, by simp [hstretch, hmiddle]⟩
            | cons next rest =>
                have halternate := hnext next rfl
                cases next with
                | quoted inside => exact absurd (mem_first_of_backtick hbehind) hbacktick.2
                | plain inside => exact halternate.elim
      · obtain ⟨other, hother, hpiece⟩ := ih hrest (hbehind ▸ List.mem_cons_of_mem _ hback)
        exact ⟨other, List.mem_cons_of_mem _ hother, hpiece⟩

/-- A word between the blanks of a text is a token, or a word of one. -/
theorem exists_token_of_mem_splitOnP (hword : Uncut word)
    (hmem : word ∈ text.splitOnP (· == ' ')) : ∃ token ∈ ofText text, word ∈ Text.words token := by
  rw [← flatMap_source_stretches text] at hmem
  obtain ⟨stretch, hstretch, hpiece⟩ := exists_stretch_of_mem (isChain_stretches text) hword hmem
  obtain ⟨token, htoken, hwords⟩ := exists_token_of_mem_source hword hpiece
  exact ⟨token, List.mem_flatMap.mpr ⟨stretch, hstretch, htoken⟩, hwords⟩

end ExprTokens

/-! ## Markers -/

variable {words : List String} {word : String}

theorem uncut_of_ofMarker? {direction : ArrowDirection}
    (hmarker : ArrowDirection.ofMarker? word = some direction) :
    ExprTokens.Uncut word.toList := by
  have hplain : OnlyOf (fun c => Text.isBlank c = false ∧ c ≠ '\x60') "->" ∧
      OnlyOf (fun c => Text.isBlank c = false ∧ c ≠ '\x60') "<-" := by
    decide
  unfold ArrowDirection.ofMarker? at hmarker
  split at hmarker
  · exact ⟨by decide, hplain.1, by decide⟩
  · exact ⟨by decide, hplain.2, by decide⟩
  · cases hmarker

/-- Words that have no blanks stand between the blanks of their line. -/
theorem mem_splitOnP_joinWords (hword : ' ' ∉ word.toList) (hmem : word ∈ words) :
    word.toList ∈ (joinWords words).toList.splitOnP (· == ' ') := by
  induction words with
  | nil => cases hmem
  | cons first rest ih =>
      -- a word without blanks is one piece
      have hsingle : word.toList.splitOnP (· == ' ') = [word.toList] := by
        refine List.splitOnP_eq_singleton fun c hc => beq_eq_false_iff_ne.mpr ?_
        rintro rfl
        exact hword hc
      cases rest with
      | nil =>
          obtain rfl := List.mem_singleton.mp hmem
          rw [joinWords, String.intercalate_singleton, hsingle]
          exact List.mem_singleton_self _
      | cons next others =>
          rw [toList_joinWords_cons_cons, List.splitOnP_append_cons _ _ (by decide),
            List.mem_append]
          rcases List.mem_cons.mp hmem with rfl | hrest
          · left
            rw [hsingle]
            exact List.mem_singleton_self _
          · exact .inr (ih hrest)

/-- **Markers show among the tokens.**  Words whose tokens have no marker have none. -/
theorem ofMarker?_of_exprTokens (htokens : ∀ token ∈ exprTokens words, Unmarked token) :
    ∀ word ∈ words, ArrowDirection.ofMarker? word = none := by
  intro word hmem
  cases hmarker : ArrowDirection.ofMarker? word with
  | none => rfl
  | some direction =>
      -- a marker is cut neither by signs nor by backticks
      have huncut := uncut_of_ofMarker? hmarker
      have hblank : ' ' ∉ word.toList := by
        intro hblank
        have hnot := (huncut.plain _ hblank).1
        exact absurd hnot (by decide)
      obtain ⟨chars, hchars, hwords⟩ :=
        ExprTokens.exists_token_of_mem_splitOnP huncut (mem_splitOnP_joinWords hblank hmem)
      have hnone := htokens (String.ofList chars) (List.mem_map_of_mem hchars) word.toList
        (by simpa using hwords)
      rw [String.ofList_toList, hmarker] at hnone
      cases hnone

end LineScript
