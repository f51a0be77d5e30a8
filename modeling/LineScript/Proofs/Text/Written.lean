import LineScript.Proofs.Text.Trim
import LineScript.Proofs.Text.Words
import LineScript.Vocabulary

/-!
# Writing tokens on a line

Reading a line cuts it into words, joins the words again and cuts the result into tokens.  Tokens
that are written with single blanks between them come back from this as they were, as long as each
is `Writable`: a word that is not cut any further, or a text between double backticks in which white
space occurs only as single blanks.

Main statements: such a line is joined from its words as it was (`joinWords_lineWords`), it is cut
into its tokens again (`exprTokens_lineWords`), and none of its words is the marker of an arrow
(`ofMarker?_of_mem_lineWords`).

## Strategy

* **Words and back.**  Joining puts single blanks between words.  So a line is joined as it was if
  all its white space is single blanks between words, which is said of pairs of neighbouring
  characters (`Quotable.isChain`) and carried from tokens to the line; cutting such a line leaves no
  empty piece (`nil_not_mem_splitOnP`).
* **Tokens.**  A token and a blank behind it are cut off together: a word because it contains no
  backtick (`ofText_word`), a quoted text because the first double backtick behind the opening one
  is its own (`ofText_inBackticks`).  What is behind the blank is cut as if it stood alone.
* **Arrows.**  A marker is not writable as a word, and the words of a quoted text are asked not to
  be markers (`Unmarked`); at the ends of the text the backticks are part of a word, which is no
  marker then.
-/

namespace LineScript

/-! ## Quotable texts -/

/-- A text between double backticks. -/
abbrev inBackticks (text : String) : String := "\x60\x60" ++ text ++ "\x60\x60"

/-- No word of a text is the marker of an arrow. -/
def Unmarked (text : String) : Prop :=
  ∀ word ∈ Text.words text.toList, ArrowDirection.ofMarker? (String.ofList word) = none

instance (text : String) : Decidable (Unmarked text) :=
  inferInstanceAs (Decidable (∀ word ∈ Text.words text.toList, _))

/-- A text that keeps its meaning when it is written between double backticks. -/
structure Quotable (text : String) : Prop where
  ne_empty : text ≠ ""
  /-- White space occurs only as blanks, -/
  blank : OnlyOf (fun c => Text.isBlank c = true → c = ' ') text
  /-- and there are never two of them in a row. -/
  single : ¬ [' ', ' '] <:+: text.toList
  backtick : '\x60' ∉ text.toList
  /-- Nothing in the text begins a comment, -/
  mark : '#' ∉ text.toList
  /-- and no word of it is the marker of an arrow. -/
  arrow : ∀ word ∈ Text.words text.toList, ArrowDirection.ofMarker? (String.ofList word) = none

namespace Text

variable {separates : Char → Bool} {text : List Char}

/-- The pieces of two texts are those of both together, but for the last of the one and the first of
the other, which are one piece. -/
theorem exists_splitOnP_append (separates : Char → Bool) (text text' : List Char) :
    ∃ front last first back, text.splitOnP separates = front ++ [last] ∧
      text'.splitOnP separates = first :: back ∧
      (text ++ text').splitOnP separates = front ++ (last ++ first) :: back := by
  induction text with
  | nil =>
      obtain ⟨first, back, hsplit⟩ :=
        List.exists_cons_of_ne_nil (List.splitOnP_ne_nil separates text')
      exact ⟨[], [], first, back, List.splitOnP_nil, hsplit, hsplit⟩
  | cons c text ih =>
      obtain ⟨front, last, first, back, htext, htext', happend⟩ := ih
      rw [List.cons_append, List.splitOnP_cons_eq_if_modifyHead,
        List.splitOnP_cons_eq_if_modifyHead, htext, happend]
      split
      · -- the character is a separator, with an empty piece in front of it
        exact ⟨[] :: front, last, first, back, rfl, htext', rfl⟩
      · cases front with
        | nil => exact ⟨[], c :: last, first, back, rfl, htext', rfl⟩
        | cons head front => exact ⟨(c :: head) :: front, last, first, back, rfl, htext', rfl⟩

/-- What is put in front of a text without a separator goes into its first piece. -/
theorem splitOnP_append_left {front : List Char} (hfront : ∀ c ∈ front, separates c = false)
    (text : List Char) :
    (front ++ text).splitOnP separates = (text.splitOnP separates).modifyHead (front ++ ·) := by
  obtain ⟨pieces, last, first, back, hsplit, htext, happend⟩ :=
    exists_splitOnP_append separates front text
  rw [List.splitOnP_eq_singleton hfront] at hsplit
  obtain ⟨rfl, rfl⟩ : pieces = [] ∧ last = front := by
    cases pieces with
    | nil => exact ⟨rfl, (List.cons.inj hsplit).1.symm⟩
    | cons head rest => simp at hsplit
  rw [happend, htext]
  rfl

/-- What is put behind a text without a separator goes into its last piece. -/
theorem splitOnP_append_right {back : List Char} (hback : ∀ c ∈ back, separates c = false)
    (text : List Char) :
    ∃ front last, text.splitOnP separates = front ++ [last] ∧
      (text ++ back).splitOnP separates = front ++ [last ++ back] := by
  obtain ⟨front, last, first, pieces, htext, hsplit, happend⟩ :=
    exists_splitOnP_append separates text back
  rw [List.splitOnP_eq_singleton hback] at hsplit
  cases hsplit
  exact ⟨front, last, htext, happend⟩

/-- Where a text has no white space at its end and the next one has none at its start, the last word
of the one and the first word of the other are one word. -/
theorem exists_words_append {c d : Char} (hlast : isBlank c = false) (hhead : isBlank d = false)
    (front back : List Char) :
    ∃ earlier last rest later, words (front ++ [c]) = earlier ++ [last] ∧
      words (d :: back) = (d :: rest) :: later ∧
      words (front ++ [c] ++ d :: back) = earlier ++ (last ++ d :: rest) :: later := by
  obtain ⟨front', last', -, hfront⟩ :=
    splitOnP_append_right (List.forall_mem_singleton.mpr hlast) front
  obtain ⟨pieces, last, first, later, hsplit, hback, happend⟩ :=
    exists_splitOnP_append isBlank (front ++ [c]) (d :: back)
  -- neither of the pieces that become one is empty, so both are words
  obtain ⟨rfl, rfl⟩ : front' = pieces ∧ last' ++ [c] = last := by
    rw [hfront] at hsplit
    obtain ⟨hpieces, hpiece⟩ := List.append_inj' hsplit rfl
    exact ⟨hpieces, (List.cons.inj hpiece).1⟩
  obtain ⟨rest, rfl⟩ : ∃ rest, first = d :: rest := by
    obtain ⟨rest, others, hcons⟩ := exists_splitOnP_cons hhead back
    rw [hcons] at hback
    exact ⟨rest, (List.cons.inj hback).1.symm⟩
  refine ⟨front'.filter fun word => !word.isEmpty, last' ++ [c], rest,
    later.filter fun word => !word.isEmpty, ?_, ?_, ?_⟩
  · rw [words, hfront, List.filter_append, List.filter_cons_of_pos (by simp), List.filter_nil]
  · rw [words, hback]
    rfl
  · rw [words, happend, List.filter_append, List.filter_cons_of_pos (by simp)]

/-- Where separators stand neither side by side nor at the end of a text, the only piece that may be
empty is the one in front of a separator at its start. -/
theorem nil_not_mem_splitOnP
    (hsingle : text.IsChain fun left right => separates left = false ∨ separates right = false)
    (hlast : ∀ c ∈ text.getLast?, separates c = false) :
    [] ∉ (text.splitOnP separates).tail ∧
      (text ≠ [] → (∀ c ∈ text.head?, separates c = false) → [] ∉ text.splitOnP separates) := by
  induction text with
  | nil => simp [List.splitOnP_nil]
  | cons c rest ih =>
      obtain ⟨hnext, hchain⟩ := List.isChain_cons.mp hsingle
      have hlastRest : ∀ d ∈ rest.getLast?, separates d = false := by
        intro d hd
        exact hlast d (List.mem_getLast?_cons hd)
      obtain ⟨htail, hall⟩ := ih hchain hlastRest
      rw [List.splitOnP_cons_eq_if_modifyHead]
      by_cases hc : separates c = true
      · -- something comes behind the separator, and it begins with none
        have hrest : rest ≠ [] := by
          rintro rfl
          rw [hlast c rfl] at hc
          cases hc
        have hhead : ∀ d ∈ rest.head?, separates d = false := by
          intro d hd
          exact (hnext d hd).resolve_left (by simp [hc])
        rw [if_pos hc]
        refine ⟨hall hrest hhead, fun _ hfirst => ?_⟩
        rw [hfirst c rfl] at hc
        cases hc
      · rw [if_neg hc, List.tail_modifyHead]
        refine ⟨htail, fun _ _ => ?_⟩
        cases hsplit : rest.splitOnP separates with
        | nil => exact List.not_mem_nil
        | cons head others =>
            rw [hsplit, List.tail_cons] at htail
            rw [List.modifyHead_cons]
            exact List.not_mem_cons_of_ne_of_not_mem (List.cons_ne_nil c head).symm htail

theorem splitOnP_congr {separates' : Char → Bool}
    (hagree : ∀ c ∈ text, separates c = separates' c) :
    text.splitOnP separates = text.splitOnP separates' := by
  induction text with
  | nil => rfl
  | cons c rest ih =>
      obtain ⟨hc, hrest⟩ := List.forall_mem_cons.mp hagree
      rw [List.splitOnP_cons_eq_if_modifyHead, List.splitOnP_cons_eq_if_modifyHead, hc, ih hrest]

/-- There is one piece more than there are separators. -/
theorem length_splitOnP (text : List Char) :
    (text.splitOnP separates).length = text.countP separates + 1 := by
  induction text with
  | nil => rfl
  | cons c rest ih =>
      rw [List.splitOnP_cons_eq_if_modifyHead, List.countP_cons]
      split
      · rw [List.length_cons, ih]
      · rw [List.length_modifyHead, ih, Nat.add_zero]

theorem words_eq_splitOnP (hpieces : [] ∉ text.splitOnP isBlank) :
    words text = text.splitOnP isBlank := by
  refine List.filter_eq_self.mpr fun piece hpiece => ?_
  cases piece with
  | nil => exact absurd hpiece hpieces
  | cons c rest => rfl

/-- A text whose words have exactly one blank between them is joined from its words. -/
theorem intercalate_words (hblank : ∀ c ∈ text, isBlank c = true → c = ' ')
    (hpieces : [] ∉ text.splitOnP isBlank) : [' '].intercalate (words text) = text := by
  have hsplit : text.splitOnP isBlank = text.splitOnP (· == ' ') := by
    refine splitOnP_congr fun c hc => ?_
    by_cases hblankC : isBlank c = true
    · rw [hblankC, hblank c hc hblankC]
      rfl
    · have hne : c ≠ ' ' := by
        rintro rfl
        exact hblankC (by decide)
      rw [Bool.eq_false_iff.mpr hblankC, beq_eq_false_iff_ne.mpr hne]
  rw [words_eq_splitOnP hpieces, hsplit]
  exact List.intercalate_splitOn ' '

end Text

/-! ## The words of a token -/

theorem isBlank_backtick : Text.isBlank '\x60' = false := by
  decide

theorem toList_inBackticks (text : String) :
    (inBackticks text).toList = ['\x60', '\x60'] ++ text.toList ++ ['\x60', '\x60'] := by
  simp [inBackticks]

theorem inBackticks_ne {text other : String} (hother : other.toList.head? ≠ some '\x60') :
    inBackticks text ≠ other := by
  rintro rfl
  exact hother (by simp)

theorem inBackticks_inj {text other : String} :
    inBackticks text = inBackticks other ↔ text = other := by
  rw [← String.toList_inj, toList_inBackticks, toList_inBackticks, List.append_left_inj,
    List.append_right_inj, String.toList_inj]

theorem ofMarker?_of_backtick {word : List Char} (hmem : '\x60' ∈ word) :
    ArrowDirection.ofMarker? (String.ofList word) = none := by
  unfold ArrowDirection.ofMarker?
  split
  next heq =>
    rw [← String.toList_inj, String.toList_ofList] at heq
    exact absurd hmem (heq ▸ by decide)
  next heq =>
    rw [← String.toList_inj, String.toList_ofList] at heq
    exact absurd hmem (heq ▸ by decide)
  next => rfl

namespace Quotable

variable {text : String}

theorem isChain (hquotable : Quotable text) : text.toList.IsChain fun left right =>
    Text.isBlank left = false ∨ Text.isBlank right = false := by
  rw [List.isChain_iff_getElem]
  intro i hi
  by_contra hboth
  simp only [not_or, Bool.not_eq_false] at hboth
  have hleft := hquotable.blank _ (List.getElem_mem _) hboth.1
  have hright := hquotable.blank _ (List.getElem_mem _) hboth.2
  -- two kinds of white space side by side are two blanks
  refine hquotable.single ⟨text.toList.take i, text.toList.drop (i + 1 + 1), ?_⟩
  calc text.toList.take i ++ [' ', ' '] ++ text.toList.drop (i + 1 + 1)
      = text.toList.take i ++ text.toList.drop i := by
        rw [List.drop_eq_getElem_cons (Nat.lt_of_succ_lt hi), List.drop_eq_getElem_cons hi, hleft,
          hright, List.append_assoc]
        rfl
    _ = text.toList := List.take_append_drop i text.toList

/-- The double backticks at both ends stand beside no other white space. -/
theorem nil_not_mem_pieces (hquotable : Quotable text) :
    [] ∉ (inBackticks text).toList.splitOnP Text.isBlank := by
  have hbacktick := isBlank_backtick
  rw [toList_inBackticks]
  refine (Text.nil_not_mem_splitOnP ?_ ?_).2 (by simp) (by simp [hbacktick])
  · have hends : List.IsChain (fun left right =>
        Text.isBlank left = false ∨ Text.isBlank right = false) ['\x60', '\x60'] := by
      simp [hbacktick]
    rw [List.isChain_append, List.isChain_append]
    exact ⟨⟨hends, hquotable.isChain, by simp [hbacktick]⟩, hends, by simp [hbacktick]⟩
  · rw [List.getLast?_append]
    simp [hbacktick]

theorem blank_inBackticks (hquotable : Quotable text) :
    ∀ c ∈ (inBackticks text).toList, Text.isBlank c = true → c = ' ' := by
  intro c hc hblank
  rw [toList_inBackticks, List.mem_append, List.mem_append] at hc
  have hne : c ∉ ['\x60', '\x60'] := by
    intro hmem
    obtain rfl : c = '\x60' := by simpa using hmem
    rw [isBlank_backtick] at hblank
    cases hblank
  exact hquotable.blank c ((hc.resolve_right hne).resolve_left hne) hblank

end Quotable

/-- A word of a text between backticks is a word of the text, or contains a backtick. -/
theorem Unmarked.inBackticks {text : String} (htext : Unmarked text) :
    Unmarked (inBackticks text) := by
  intro word hword
  by_cases hmem : '\x60' ∈ word
  · exact ofMarker?_of_backtick hmem
  · -- the first and the last word have the backticks, and all others are words of the text
    refine htext word (List.mem_filter.mpr ⟨?_, (List.mem_filter.mp hword).2⟩)
    have hpiece := (List.mem_filter.mp hword).1
    have hends : ∀ c ∈ ['\x60', '\x60'], Text.isBlank c = false := by
      simp [isBlank_backtick]
    obtain ⟨front, last, hsplit, happend⟩ := Text.splitOnP_append_right hends text.toList
    rw [toList_inBackticks, List.append_assoc, Text.splitOnP_append_left hends, happend] at hpiece
    rw [hsplit]
    cases front with
    | nil =>
        obtain rfl : word = ['\x60', '\x60'] ++ (last ++ ['\x60', '\x60']) := by
          simpa using hpiece
        exact absurd hmem (by simp)
    | cons head others =>
        rw [List.cons_append, List.modifyHead_cons, List.mem_cons, List.mem_append,
          List.mem_singleton] at hpiece
        rcases hpiece with rfl | hothers | rfl
        · exact absurd hmem (by simp)
        · simp [hothers]
        · exact absurd hmem (by simp)

/-! ## Cutting a text into tokens -/

namespace ExprTokens

theorem stretches_cons {c : Char} (hc : c ≠ '\x60') (rest : List Char) :
    stretches (c :: rest) = Stretch.push c (stretches rest) := by
  rw [stretches]
  exact fun _ heq => absurd heq hc

/-- A double backtick that another one closes begins a quoted stretch. -/
theorem stretches_of_cutAtQuote {rest inside after : List Char}
    (hcut : cutAtQuote rest = some (inside, after)) :
    stretches ('\x60' :: '\x60' :: rest) = .quoted inside :: stretches after := by
  rw [stretches]
  split
  next heq =>
    rw [hcut] at heq
    cases heq
    rfl
  next heq =>
    rw [hcut] at heq
    cases heq

/-- A double backtick that no other one closes is ordinary text. -/
theorem stretches_of_cutAtQuote_eq_none {rest : List Char} (hcut : cutAtQuote rest = none) :
    stretches ('\x60' :: '\x60' :: rest) = Stretch.push '\x60' (stretches ('\x60' :: rest)) := by
  rw [stretches]
  split
  next heq =>
    rw [hcut] at heq
    cases heq
  next => rfl

/-- What is pushed onto stretches goes into the first of them, if it is plain. -/
theorem exists_push (c : Char) (stretches : List Stretch) :
    ∃ text others, Stretch.push c stretches = .plain (c :: text) :: others ∧
      stretches.flatMap Stretch.tokens =
        (text.splitOnP isSeparator).flatMap splitStructural ++ others.flatMap Stretch.tokens := by
  unfold Stretch.push
  split
  next text rest => exact ⟨text, rest, rfl, rfl⟩
  next => exact ⟨[], stretches, rfl, rfl⟩

/-- Separators in front of a text are not part of a token. -/
theorem ofText_separator {c : Char} (hc : isSeparator c = true) (hbacktick : c ≠ '\x60')
    (rest : List Char) : ofText (c :: rest) = ofText rest := by
  obtain ⟨text, others, hpush, htokens⟩ := exists_push c (stretches rest)
  rw [ofText, ofText, stretches_cons hbacktick, hpush, List.flatMap_cons, htokens, Stretch.tokens,
    List.splitOnP_cons_eq_if_modifyHead, if_pos hc]
  rfl

theorem not_isSeparator {c : Char} (hc : Text.isBlank c = false) : isSeparator c = false := by
  have hspace : c ≠ ' ' := by
    rintro rfl
    exact absurd hc (by decide)
  have htab : c ≠ '\t' := by
    rintro rfl
    exact absurd hc (by decide)
  simp [isSeparator, hspace, htab]

/-- A word without structural characters is one piece. -/
theorem splitStructural_of_not_isStructural {word : List Char} (hne : word ≠ [])
    (hword : ∀ c ∈ word, isStructural c = false) : splitStructural word = [word] := by
  refine List.splitBy_of_isChain hne (List.isChain_iff_getElem.mpr fun i hi => ?_)
  have hplain {j : Nat} (hj : j < word.length) : isStructural word[j] = false :=
    hword _ (List.getElem_mem hj)
  simp [hplain]

/-- A word in front of a text is cut only at structural characters. -/
theorem ofText_word {word : List Char}
    (hword : ∀ c ∈ word, Text.isBlank c = false ∧ c ≠ '\x60') (rest : List Char) :
    ofText (word ++ ' ' :: rest) = splitStructural word ++ ofText rest := by
  have hseparator : ∀ c ∈ word, isSeparator c = false := fun c hc => not_isSeparator (hword c hc).1
  obtain ⟨text, others, hpush, htokens⟩ := exists_push ' ' (stretches rest)
  -- without backticks the word stays in one stretch with what is behind it
  have hstretches : stretches (word ++ ' ' :: rest) = .plain (word ++ ' ' :: text) :: others := by
    induction word with
    | nil => rw [List.nil_append, stretches_cons (by decide), hpush, List.nil_append]
    | cons c word ih =>
        obtain ⟨hc, hrest⟩ := List.forall_mem_cons.mp hword
        obtain ⟨-, hseparators⟩ := List.forall_mem_cons.mp hseparator
        rw [List.cons_append, stretches_cons hc.2, ih hrest hseparators]
        rfl
  rw [ofText, hstretches, List.flatMap_cons, Stretch.tokens,
    List.splitOnP_append_cons _ _ (by decide), List.splitOnP_eq_singleton hseparator,
    List.flatMap_append, List.append_assoc, ← htokens, List.flatMap_singleton, ofText]

/-- A text without white space is cut only at structural characters. -/
theorem ofText_of_not_blank {word : List Char} (hne : word ≠ [])
    (hword : ∀ c ∈ word, Text.isBlank c = false ∧ c ≠ '\x60') :
    ofText word = splitStructural word := by
  have hseparator : ∀ c ∈ word, isSeparator c = false := fun c hc => not_isSeparator (hword c hc).1
  have hstretches : stretches word = [.plain word] := by
    -- separators play no part in the stretches, and would stand in the way of the induction
    clear hseparator
    induction word with
    | nil => exact absurd rfl hne
    | cons c word ih =>
        obtain ⟨hc, hrest⟩ := List.forall_mem_cons.mp hword
        rw [stretches_cons hc.2]
        cases word with
        | nil => rw [stretches]; rfl
        | cons d others =>
            rw [ih (List.cons_ne_nil d others) hrest]
            rfl
  rw [ofText, hstretches, List.flatMap_singleton, Stretch.tokens,
    List.splitOnP_eq_singleton hseparator, List.flatMap_singleton]

theorem cutAtQuote_of_not_mem {text : List Char} (htext : '\x60' ∉ text) (rest : List Char) :
    cutAtQuote (text ++ '\x60' :: '\x60' :: rest) = some (text, rest) := by
  induction text with
  | nil => rfl
  | cons c text ih =>
      have hc : c ≠ '\x60' := fun heq => htext (heq ▸ List.mem_cons_self)
      rw [List.cons_append, cutAtQuote, ih fun hmem => htext (List.mem_cons_of_mem c hmem)]
      · rfl
      · exact fun _ heq => absurd heq hc

/-- A text between double backticks is one token. -/
theorem ofText_inBackticks {text : String} (htext : '\x60' ∉ text.toList) (rest : List Char) :
    ofText ((inBackticks text).toList ++ rest) = (inBackticks text).toList :: ofText rest := by
  have hopen : (inBackticks text).toList ++ rest =
      '\x60' :: '\x60' :: (text.toList ++ '\x60' :: '\x60' :: rest) := by
    simp
  rw [ofText, hopen, stretches_of_cutAtQuote (cutAtQuote_of_not_mem htext rest),
    List.flatMap_cons, Stretch.tokens, ofText, toList_inBackticks]
  rfl

end ExprTokens

/-! ## Writable tokens -/

/-- A token that is cut out of a line again when blanks stand around it. -/
inductive Writable : String → Prop
  | word {token : String} (hne : token ≠ "")
      (hchars : ∀ c ∈ token.toList, Text.isBlank c = false ∧ c ≠ '\x60' ∧ c ≠ '#')
      (hsplit : ExprTokens.splitStructural token.toList = [token.toList])
      (harrow : ArrowDirection.ofMarker? token = none) : Writable token
  | quoted {text : String} (hquotable : Quotable text) : Writable (inBackticks text)

namespace Writable

variable {token : String}

/-- A word without structural characters is not cut any further. -/
theorem of_not_isStructural (hne : token ≠ "")
    (hchars : ∀ c ∈ token.toList, Text.isBlank c = false ∧ c ≠ '\x60' ∧ c ≠ '#' ∧
      ExprTokens.isStructural c = false)
    (harrow : ArrowDirection.ofMarker? token = none) : Writable token := by
  refine .word hne (fun c hc => ?_) ?_ harrow
  · obtain ⟨hblank, hbacktick, hmark, -⟩ := hchars c hc
    exact ⟨hblank, hbacktick, hmark⟩
  · exact ExprTokens.splitStructural_of_not_isStructural (by simpa using hne)
      fun c hc => (hchars c hc).2.2.2

theorem blank (hwritable : Writable token) :
    ∀ c ∈ token.toList, Text.isBlank c = true → c = ' ' := by
  cases hwritable with
  | word hne hchars hsplit harrow =>
      intro c hc hblank
      rw [(hchars c hc).1] at hblank
      cases hblank
  | quoted hquotable => exact hquotable.blank_inBackticks

theorem nil_not_mem_pieces (hwritable : Writable token) :
    [] ∉ token.toList.splitOnP Text.isBlank := by
  cases hwritable with
  | word hne hchars hsplit harrow =>
      rw [List.splitOnP_eq_singleton fun c hc => (hchars c hc).1, List.mem_singleton, eq_comm]
      simpa using hne
  | quoted hquotable => exact hquotable.nil_not_mem_pieces

theorem mark (hwritable : Writable token) : '#' ∉ token.toList := by
  cases hwritable with
  | word hne hchars hsplit harrow => exact fun hmem => (hchars _ hmem).2.2 rfl
  | quoted hquotable => simp [hquotable.mark]

theorem unmarked (hwritable : Writable token) : Unmarked token := by
  cases hwritable with
  | word hne hchars hsplit harrow =>
      unfold Unmarked
      rw [Text.words_of_not_blank (by simpa using hne) fun c hc => (hchars c hc).1]
      simpa using harrow
  | quoted hquotable => exact Unmarked.inBackticks hquotable.arrow

theorem ofText_append (hwritable : Writable token) (rest : List Char) :
    ExprTokens.ofText (token.toList ++ ' ' :: rest) = token.toList :: ExprTokens.ofText rest := by
  cases hwritable with
  | word hne hchars hsplit harrow =>
      rw [ExprTokens.ofText_word fun c hc => ⟨(hchars c hc).1, (hchars c hc).2.1⟩, hsplit]
      rfl
  | quoted hquotable =>
      rw [ExprTokens.ofText_inBackticks hquotable.backtick,
        ExprTokens.ofText_separator (by decide) (by decide)]

theorem ofText_toList (hwritable : Writable token) :
    ExprTokens.ofText token.toList = [token.toList] := by
  cases hwritable with
  | word hne hchars hsplit harrow =>
      rw [ExprTokens.ofText_of_not_blank (by simpa using hne)
        fun c hc => ⟨(hchars c hc).1, (hchars c hc).2.1⟩, hsplit]
  | @quoted text hquotable =>
      have happend := ExprTokens.ofText_inBackticks hquotable.backtick []
      rw [List.append_nil] at happend
      rw [happend, ExprTokens.ofText, ExprTokens.stretches, List.flatMap_nil]

end Writable

/-! ## Lines of tokens -/

/-- The words of a line on which tokens are written with blanks between them. -/
def lineWords (tokens : List String) : List String :=
  (Text.words (joinWords tokens).toList).map String.ofList

variable {token : String} {tokens : List String}

theorem toList_joinWords_cons_cons (token next : String) (rest : List String) :
    (joinWords (token :: next :: rest)).toList =
      token.toList ++ ' ' :: (joinWords (next :: rest)).toList := by
  rw [joinWords, String.intercalate_cons_cons, String.toList_append, String.toList_append,
    List.append_assoc]
  rfl

/-- The words of a line are those of its tokens. -/
theorem lineWords_cons (token : String) (rest : List String) :
    lineWords (token :: rest) = lineWords [token] ++ lineWords rest := by
  cases rest with
  | nil => exact (List.append_nil _).symm
  | cons next others =>
      rw [lineWords, toList_joinWords_cons_cons, Text.words_append_cons (by decide),
        List.map_append]
      rfl

theorem nil_not_mem_pieces_of_writable (hne : tokens ≠ [])
    (hwritable : ∀ token ∈ tokens, Writable token) :
    [] ∉ (joinWords tokens).toList.splitOnP Text.isBlank := by
  induction tokens with
  | nil => exact absurd rfl hne
  | cons token rest ih =>
      obtain ⟨htoken, hrest⟩ := List.forall_mem_cons.mp hwritable
      cases rest with
      | nil => simpa [joinWords] using htoken.nil_not_mem_pieces
      | cons next others =>
          rw [toList_joinWords_cons_cons, List.splitOnP_append_cons _ _ (by decide),
            List.mem_append]
          exact not_or.mpr ⟨htoken.nil_not_mem_pieces, ih (List.cons_ne_nil next others) hrest⟩

theorem blank_of_writable (hwritable : ∀ token ∈ tokens, Writable token) :
    ∀ c ∈ (joinWords tokens).toList, Text.isBlank c = true → c = ' ' :=
  OnlyOf.joinWords (fun _ => rfl) fun token htoken => (hwritable token htoken).blank

/-- Joining the words of a line gives the line. -/
theorem joinWords_lineWords (hwritable : ∀ token ∈ tokens, Writable token) :
    joinWords (lineWords tokens) = joinWords tokens := by
  cases tokens with
  | nil => rfl
  | cons token rest =>
      have hblank := blank_of_writable hwritable
      have hpieces := nil_not_mem_pieces_of_writable (List.cons_ne_nil token rest) hwritable
      have hmap : (lineWords (token :: rest)).map String.toList =
          Text.words (joinWords (token :: rest)).toList := by
        simp [lineWords]
      rw [← String.toList_inj, joinWords, String.toList_intercalate, hmap]
      exact Text.intercalate_words hblank hpieces

/-- The tokens of a line are read off it again. -/
theorem exprTokens_lineWords (hwritable : ∀ token ∈ tokens, Writable token) :
    exprTokens (lineWords tokens) = tokens := by
  have hofText : ExprTokens.ofText (joinWords tokens).toList = tokens.map String.toList := by
    induction tokens with
    | nil => rw [joinWords, String.intercalate_nil, String.toList_empty, ExprTokens.ofText,
        ExprTokens.stretches, List.flatMap_nil, List.map_nil]
    | cons token rest ih =>
        obtain ⟨htoken, hrest⟩ := List.forall_mem_cons.mp hwritable
        cases rest with
        | nil => simpa [joinWords] using htoken.ofText_toList
        | cons next others =>
            -- the blank behind a token parts it from the others
            rw [toList_joinWords_cons_cons, htoken.ofText_append, ih hrest]
            rfl
  rw [exprTokens, joinWords_lineWords hwritable, hofText, List.map_map]
  simp [Function.comp_def]

/-- No word of a line is the marker of an arrow. -/
theorem ofMarker?_of_mem_lineWords (hwritable : ∀ token ∈ tokens, Writable token) :
    ∀ word ∈ lineWords tokens, ArrowDirection.ofMarker? word = none := by
  induction tokens with
  | nil => simp [lineWords, joinWords]
  | cons token rest ih =>
      obtain ⟨htoken, hrest⟩ := List.forall_mem_cons.mp hwritable
      rw [lineWords_cons]
      refine List.forall_mem_append.mpr ⟨?_, ih hrest⟩
      intro word hword
      obtain ⟨chars, hchars, rfl⟩ := List.mem_map.mp hword
      exact htoken.unmarked chars (by simpa [joinWords] using hchars)

theorem mark_of_writable (hwritable : ∀ token ∈ tokens, Writable token) :
    '#' ∉ (joinWords tokens).toList := by
  have honly : OnlyOf (· ≠ '#') (joinWords tokens) := by
    refine OnlyOf.joinWords (by decide) fun token htoken c hc => ?_
    rintro rfl
    exact (hwritable token htoken).mark hc
  exact fun hmem => honly '#' hmem rfl

theorem ne_nil_of_exprTokens {words : List String} (hne : exprTokens words ≠ []) : words ≠ [] := by
  rintro rfl
  have hnone : exprTokens (lineWords []) = [] := exprTokens_lineWords (List.forall_mem_nil _)
  exact hne hnone

theorem lineWords_ne_nil (hne : tokens ≠ []) (hwritable : ∀ token ∈ tokens, Writable token) :
    lineWords tokens ≠ [] := by
  rw [← exprTokens_lineWords hwritable] at hne
  exact ne_nil_of_exprTokens hne

/-! ## Single tokens -/

/-- A word without white space is a word of its line. -/
theorem lineWords_of_not_blank (hne : token ≠ "")
    (hchars : ∀ c ∈ token.toList, Text.isBlank c = false) : lineWords [token] = [token] := by
  have hword : Text.words token.toList = [token.toList] :=
    Text.words_of_not_blank (by simpa using hne) hchars
  simp [lineWords, joinWords, hword]

/-- A text between backticks has one word more than it has blanks. -/
theorem length_lineWords_inBackticks {text : String} (hquotable : Quotable text) :
    (lineWords [inBackticks text]).length = text.toList.count ' ' + 1 := by
  have hblank : ∀ c ∈ text.toList, Text.isBlank c = true ↔ (c == ' ') = true := by
    intro c hc
    rw [beq_iff_eq]
    refine ⟨hquotable.blank c hc, ?_⟩
    rintro rfl
    decide
  have hcount : (inBackticks text).toList.countP Text.isBlank = text.toList.count ' ' := by
    rw [toList_inBackticks, List.countP_append, List.countP_append, List.countP_congr hblank]
    simp [isBlank_backtick, List.count]
  rw [lineWords, joinWords, String.intercalate_singleton, List.length_map,
    Text.words_eq_splitOnP hquotable.nil_not_mem_pieces, Text.length_splitOnP, hcount]

end LineScript
