import LineScript.Text.Blank

/-!
# White space around words

A text is its trimmed text between two stretches of white space (`exists_eq_trim`), and its words
lose nothing but white space (`flatten_words`).  What is asked of a line can therefore be read off
its words: which characters other than white space it has (`exists_mem_words_iff`), whether it is
one word and which (`trim_eq_of_words_eq_singleton`), and the words in front of a mark
(`words_takeWhile`).

Trimming goes by the first and the last character that is no white space, and cutting into words by
every character, so the two are connected through stretches of white space (`Blank`): they may be
put at either end of a text, or taken off, without a change to its words (`words_blank_append`,
`words_append_blank`), and a text whose words are none is such a stretch (`blank_of_words_eq_nil`).
Where a mark begins a comment, the word that it stands in is cut as well, and may be nothing then
(`wordsBefore_append`).
-/

namespace LineScript.Text

/-- White space and nothing else. -/
def Blank (text : List Char) : Prop := ∀ c ∈ text, isBlank c = true

variable {text front back : List Char}

theorem blank_nil : Blank [] := List.forall_mem_nil _

theorem blank_singleton {c : Char} (hblank : isBlank c = true) : Blank [c] :=
  List.forall_mem_singleton.mpr hblank

theorem Blank.of_subset {part : List Char} (hblank : Blank text) (hsubset : part ⊆ text) :
    Blank part := fun c hc => hblank c (hsubset hc)

theorem Blank.append (hfront : Blank front) (hback : Blank back) : Blank (front ++ back) := by
  intro c hc
  rcases List.mem_append.mp hc with h | h
  · exact hfront c h
  · exact hback c h

theorem blank_takeWhile (text : List Char) : Blank (text.takeWhile isBlank) := by
  intro c hc
  exact List.all_eq_true.mp List.all_takeWhile c hc

/-! ## Trimming -/

theorem trimStart_append (hfront : Blank front) (text : List Char) :
    trimStart (front ++ text) = trimStart text :=
  List.dropWhile_append_of_pos hfront

theorem trimEnd_append (hback : Blank back) (text : List Char) :
    trimEnd (text ++ back) = trimEnd text := by
  have hreverse : Blank back.reverse := by
    intro c hc
    exact hback c (List.mem_reverse.mp hc)
  rw [trimEnd, List.reverse_append, List.dropWhile_append_of_pos hreverse, trimEnd]

/-- White space around a text does not matter when it is trimmed. -/
theorem trim_enclosed (hfront : Blank front) (hback : Blank back) (text : List Char) :
    trim (front ++ text ++ back) = trim text := by
  rw [trim, List.append_assoc, trimStart_append hfront, trim, trimStart, List.dropWhile_append]
  split
  next hempty =>
    -- the text is blank, and so is everything
    have hdrop : (back ++ []).dropWhile isBlank = [] := List.dropWhile_append_of_pos hback
    rw [List.append_nil] at hdrop
    rw [hdrop, trimStart, List.isEmpty_iff.mp hempty]
  next => exact trimEnd_append hback _

theorem trim_blank_append (hfront : Blank front) (text : List Char) :
    trim (front ++ text) = trim text := by
  have henclosed : trim (front ++ text ++ []) = trim text := trim_enclosed hfront blank_nil text
  rwa [List.append_nil] at henclosed

theorem trim_append_blank (hback : Blank back) (text : List Char) :
    trim (text ++ back) = trim text :=
  trim_enclosed blank_nil hback text

theorem exists_eq_trimEnd (text : List Char) :
    ∃ back, Blank back ∧ text = trimEnd text ++ back := by
  refine ⟨(text.reverse.takeWhile isBlank).reverse, ?_, ?_⟩
  · intro c hc
    exact blank_takeWhile _ c (List.mem_reverse.mp hc)
  · rw [trimEnd, ← List.reverse_append, List.takeWhile_append_dropWhile, List.reverse_reverse]

/-- A text is its trimmed text between two stretches of white space. -/
theorem exists_eq_trim (text : List Char) :
    ∃ front back, Blank front ∧ Blank back ∧ text = front ++ trim text ++ back := by
  obtain ⟨back, hback, heq⟩ := exists_eq_trimEnd (trimStart text)
  refine ⟨text.takeWhile isBlank, back, blank_takeWhile text, hback, ?_⟩
  rw [List.append_assoc, trim, ← heq]
  exact List.takeWhile_append_dropWhile.symm

theorem trim_trim (text : List Char) : trim (trim text) = trim text := by
  obtain ⟨front, back, hfront, hback, heq⟩ := exists_eq_trim text
  rw [← trim_enclosed hfront hback (trim text), ← heq]

theorem trim_trimEnd (text : List Char) : trim (trimEnd text) = trim text := by
  obtain ⟨back, hback, heq⟩ := exists_eq_trimEnd text
  rw [← trim_append_blank hback (trimEnd text), ← heq]

theorem trimEnd_trimEnd (text : List Char) : trimEnd (trimEnd text) = trimEnd text := by
  obtain ⟨back, hback, heq⟩ := exists_eq_trimEnd text
  rw [← trimEnd_append hback (trimEnd text), ← heq]

theorem mem_of_mem_trim {c : Char} (hmem : c ∈ trim text) : c ∈ text := by
  obtain ⟨front, back, -, -, heq⟩ := exists_eq_trim text
  rw [heq]
  simp [hmem]

/-- A trimmed text does not begin with white space. -/
theorem isBlank_of_head?_trim {c : Char} (hhead : (trim text).head? = some c) :
    isBlank c = false := by
  obtain ⟨back, -, heq⟩ := exists_eq_trimEnd (trimStart text)
  have hstart : (trimStart text).head? = some c := by
    rw [heq, List.head?_append, ← trim, hhead, Option.some_or]
  have hnot := List.head?_dropWhile_not isBlank text
  rw [← trimStart, hstart] at hnot
  simpa using hnot

/-! ## Words -/

theorem words_append_cons {c : Char} (hblank : isBlank c = true) (front back : List Char) :
    words (front ++ c :: back) = words front ++ words back := by
  rw [words, List.splitOnP_append_cons front back hblank, List.filter_append]
  rfl

theorem words_append_blank (hback : Blank back) (text : List Char) :
    words (text ++ back) = words text := by
  induction back generalizing text with
  | nil => rw [List.append_nil]
  | cons c back ih =>
      have hc : isBlank c = true := hback c List.mem_cons_self
      have hrest : Blank back := hback.of_subset (List.subset_cons_self c back)
      have hnil : words back = [] := by simpa using ih hrest []
      rw [words_append_cons hc, hnil, List.append_nil]

theorem words_blank_append (hfront : Blank front) (text : List Char) :
    words (front ++ text) = words text := by
  induction front with
  | nil => rfl
  | cons c front ih =>
      have hc : isBlank c = true := hfront c List.mem_cons_self
      have hrest : Blank front := hfront.of_subset (List.subset_cons_self c front)
      have hcons : words (c :: (front ++ text)) = words [] ++ words (front ++ text) :=
        words_append_cons hc [] (front ++ text)
      rw [List.cons_append, hcons, words_nil, List.nil_append, ih hrest]

/-- White space around a text does not change its words. -/
theorem words_enclosed (hfront : Blank front) (hback : Blank back) (text : List Char) :
    words (front ++ text ++ back) = words text := by
  rw [words_append_blank hback, words_blank_append hfront]

/-- A character that does not separate begins the first piece. -/
theorem exists_splitOnP_cons {separates : Char → Bool} {c : Char} (hc : separates c = false)
    (text : List Char) : ∃ rest later, (c :: text).splitOnP separates = (c :: rest) :: later := by
  obtain ⟨piece, pieces, hsplit⟩ :=
    List.exists_cons_of_ne_nil (List.splitOnP_ne_nil separates text)
  refine ⟨piece, pieces, ?_⟩
  rw [List.splitOnP_cons_eq_if_modifyHead, hc, if_neg Bool.false_ne_true, hsplit,
    List.modifyHead_cons]

/-- A text that does not begin with white space begins with a word. -/
theorem exists_words_cons {c : Char} (hblank : isBlank c = false) (text : List Char) :
    ∃ rest later, words (c :: text) = (c :: rest) :: later := by
  obtain ⟨rest, later, hsplit⟩ := exists_splitOnP_cons hblank text
  exact ⟨rest, later.filter fun word => !word.isEmpty, by rw [words, hsplit]; rfl⟩

theorem words_cons_ne_nil {c : Char} (hblank : isBlank c = false) (text : List Char) :
    words (c :: text) ≠ [] := by
  obtain ⟨rest, later, hwords⟩ := exists_words_cons hblank text
  rw [hwords]
  exact List.cons_ne_nil _ _

theorem words_trim (text : List Char) : words (trim text) = words text := by
  obtain ⟨front, back, hfront, hback, heq⟩ := exists_eq_trim text
  rw [← words_enclosed hfront hback (trim text), ← heq]

theorem flatten_splitOnP {separates : Char → Bool} (text : List Char) :
    (text.splitOnP separates).flatten = text.filter fun c => !separates c := by
  induction text with
  | nil => rfl
  | cons c rest ih =>
      rw [List.splitOnP_cons_eq_if_modifyHead, List.filter_cons]
      cases hc : separates c with
      | true => simpa using ih
      | false =>
          obtain ⟨piece, pieces, hsplit⟩ :=
            List.exists_cons_of_ne_nil (List.splitOnP_ne_nil separates rest)
          rw [hsplit] at ih ⊢
          simpa using ih

/-- Words lose nothing but white space. -/
theorem flatten_words (text : List Char) :
    (words text).flatten = text.filter fun c => !isBlank c := by
  rw [words, List.flatten_filter_not_isEmpty, flatten_splitOnP]

/-- A character that is no white space is in a text exactly if it is in one of the words. -/
theorem exists_mem_words_iff {c : Char} (hblank : isBlank c = false) :
    (∃ word ∈ words text, c ∈ word) ↔ c ∈ text := by
  rw [← List.mem_flatten, flatten_words, List.mem_filter, hblank]
  exact and_iff_left rfl

theorem blank_of_words_eq_nil (hwords : words text = []) : Blank text := by
  intro c hc
  cases hblank : isBlank c with
  | true => rfl
  | false =>
      obtain ⟨word, hword, -⟩ := (exists_mem_words_iff hblank).mpr hc
      rw [hwords] at hword
      cases hword

theorem words_of_not_blank {word : List Char} (hne : word ≠ [])
    (hchars : ∀ c ∈ word, isBlank c = false) : words word = [word] := by
  rw [words, List.splitOnP_eq_singleton hchars]
  simp [hne]

theorem length_trim_le (text : List Char) : (trim text).length ≤ text.length := by
  obtain ⟨front, back, -, -, heq⟩ := exists_eq_trim text
  have hlength := congrArg List.length heq
  simp only [List.length_append] at hlength
  omega

/-- White space inside of a trimmed text stands between words. -/
theorem words_ne_nil_of_trimmed {c : Char} (hblank : isBlank c = true)
    (htrim : trim (front ++ c :: back) = front ++ c :: back) :
    words front ≠ [] ∧ words back ≠ [] := by
  have hc : Blank [c] := blank_singleton hblank
  -- otherwise one side of the white space is nothing but white space, and would have been trimmed
  constructor
  · intro hwords
    have hshort : trim (front ++ [c] ++ back) = trim back :=
      trim_blank_append ((blank_of_words_eq_nil hwords).append hc) back
    rw [List.append_assoc, List.singleton_append, htrim] at hshort
    have hle := length_trim_le back
    rw [← hshort, List.length_append, List.length_cons] at hle
    omega
  · intro hwords
    have hshort : trim (front ++ ([c] ++ back)) = trim front :=
      trim_append_blank (hc.append (blank_of_words_eq_nil hwords)) front
    rw [List.singleton_append, htrim] at hshort
    have hle := length_trim_le front
    rw [← hshort, List.length_append, List.length_cons] at hle
    omega

/-- The only word of a text is the trimmed text. -/
theorem trim_eq_of_words_eq_singleton {word : List Char} (hwords : words text = [word]) :
    trim text = word := by
  rw [← words_trim] at hwords
  have htrim := trim_trim text
  generalize trim text = inside at hwords htrim ⊢
  -- white space inside would have words on both sides
  have hchars : ∀ c ∈ inside, isBlank c = false := by
    intro c hc
    cases hblank : isBlank c with
    | false => rfl
    | true =>
        obtain ⟨front, back, rfl⟩ := List.append_of_mem hc
        obtain ⟨hfront, hback⟩ := words_ne_nil_of_trimmed hblank htrim
        rw [words_append_cons hblank, List.append_eq_singleton_iff] at hwords
        rcases hwords with ⟨hnil, -⟩ | ⟨-, hnil⟩
        · exact absurd hnil hfront
        · exact absurd hnil hback
  have hne : inside ≠ [] := by
    rintro rfl
    cases hwords
  rw [words_of_not_blank hne hchars] at hwords
  exact List.singleton_inj.mp hwords

/-! ## Words in front of a mark -/

/-- Pieces of a text up to the first mark. -/
def piecesBefore (mark : Char) : List (List Char) → List (List Char)
  | [] => []
  | piece :: rest =>
      if mark ∈ piece then [piece.takeWhile (· != mark)] else piece :: piecesBefore mark rest

/-- Words of a text up to the first mark. -/
def wordsBefore (mark : Char) (words : List (List Char)) : List (List Char) :=
  (piecesBefore mark words).filter fun word => !word.isEmpty

theorem splitOnP_takeWhile {separates : Char → Bool} {mark : Char}
    (hmark : separates mark = false) (text : List Char) :
    (text.takeWhile (· != mark)).splitOnP separates =
      piecesBefore mark (text.splitOnP separates) := by
  induction text with
  | nil => simp [List.splitOnP_nil, piecesBefore]
  | cons c rest ih =>
      obtain ⟨piece, pieces, hsplit⟩ :=
        List.exists_cons_of_ne_nil (List.splitOnP_ne_nil separates rest)
      rw [hsplit] at ih
      rw [List.splitOnP_cons_eq_if_modifyHead, hsplit]
      by_cases hc : c = mark
      · subst hc
        simp [hmark, piecesBefore, List.splitOnP_nil]
      · -- the character is in front of the mark, and stays
        have htake {text : List Char} :
            (c :: text).takeWhile (· != mark) = c :: text.takeWhile (· != mark) :=
          List.takeWhile_cons_of_pos (bne_iff_ne.mpr hc)
        rw [htake, List.splitOnP_cons_eq_if_modifyHead, ih]
        cases hseparates : separates c with
        | true => simp [piecesBefore]
        | false =>
            by_cases hmem : mark ∈ piece <;> simp [piecesBefore, hmem, htake, Ne.symm hc]

theorem wordsBefore_filter (mark : Char) (pieces : List (List Char)) :
    wordsBefore mark (pieces.filter fun piece => !piece.isEmpty) = wordsBefore mark pieces := by
  induction pieces with
  | nil => rfl
  | cons piece rest ih =>
      unfold wordsBefore at ih ⊢
      cases piece with
      | nil => simpa [piecesBefore] using ih
      | cons c piece =>
          rw [List.filter_cons_of_pos (by rfl)]
          by_cases hmem : mark ∈ c :: piece
          · simp only [piecesBefore, if_pos hmem]
          · simp only [piecesBefore, if_neg hmem, List.filter_cons, ih]

/-- The words in front of a mark are read off the words of the whole text. -/
theorem words_takeWhile {mark : Char} (hmark : isBlank mark = false) (text : List Char) :
    words (text.takeWhile (· != mark)) = wordsBefore mark (words text) := by
  rw [words, words, splitOnP_takeWhile hmark, wordsBefore_filter, wordsBefore]

/-- Words without a mark in front of others are in front of their mark. -/
theorem wordsBefore_append {mark : Char} {front : List (List Char)}
    (hfront : ∀ word ∈ front, word ≠ [] ∧ mark ∉ word) (back : List (List Char)) :
    wordsBefore mark (front ++ back) = front ++ wordsBefore mark back := by
  induction front with
  | nil => rfl
  | cons word rest ih =>
      obtain ⟨⟨hne, hmark⟩, hrest⟩ := List.forall_mem_cons.mp hfront
      have hback := ih hrest
      unfold wordsBefore at hback ⊢
      simp [piecesBefore, hmark, hne, hback]

/-- The words in front of a mark that is no white space are those of the trimmed text. -/
theorem words_takeWhile_trim {mark : Char} (hmark : isBlank mark = false) (text : List Char) :
    words (text.takeWhile (· != mark)) = words ((trim text).takeWhile (· != mark)) := by
  rw [words_takeWhile hmark, words_takeWhile hmark, words_trim]

theorem contains_trim {mark : Char} (hmark : isBlank mark = false) (text : List Char) :
    (trim text).contains mark = text.contains mark := by
  rw [Bool.eq_iff_iff, List.contains_iff_mem, List.contains_iff_mem, ← exists_mem_words_iff hmark,
    words_trim, exists_mem_words_iff hmark]

end LineScript.Text
