import LineScript.Proofs.Program.Outcome
import LineScript.Proofs.Source.EachLine
import Mathlib.Data.List.GetD

/-!
# Appearance has no effect

White space parts the words of a line, and a state glyph or a pictograph in front of them is an
ornament.  How a line looks otherwise does not matter.  Main statements: sources with the same words
on each of their lines come to the same (`sameOutcome_of_wordsOfLine`), and so do a source and the
source with ornaments in front of any of its lines (`sameOutcome_of_adorned`).

## Strategy

Both are about two runs, and go by the pieces of the two sources: scanning makes out the same on
them (`PieceAlike`), and then the outcomes are the same (`sameOutcome_of_findings`).

* Two sources may have different numbers of lines, as long as those at the end have no words.  Empty
  lines are added to the shorter one, which has no effect on what the scanner makes of it
  (`findingsOfLines_append_nils`).
* An ornament is a state glyph, a pictograph, or both in this order.  In front of a line with words,
  the first of which is no ornament, it is all that is taken off (`IsOrnament.content_append`).
  Neither kind of ornament contains a mark, so that a remark on a comment stays where it is.  A line
  inside of a block comment, or without words, is left as it was (`Adorned.same`).
-/

namespace LineScript

open Text

/-! ## White space -/

/-- The words of a line of the source, counted from zero.  Behind the last line there are none. -/
def wordsOfLine (source : String) (index : Nat) : List String :=
  (words ((source.toList.splitOnP (· == '\n')).getD index [])).map String.ofList

theorem getElem_append_nils {pieces : List (List Char)} {count index : Nat}
    (hindex : index < (pieces ++ List.replicate count []).length) :
    (pieces ++ List.replicate count [])[index] = pieces.getD index [] := by
  by_cases hlt : index < pieces.length
  · rw [List.getElem_append_left hlt, List.getD_eq_getElem _ _ hlt]
  · have hle : pieces.length ≤ index := Nat.le_of_not_lt hlt
    rw [List.getElem_append_right hle, List.getElem_replicate, List.getD_eq_default _ _ hle]

theorem wordsOfLine_of_le {source : String} {index : Nat}
    (hindex : (source.toList.splitOnP (· == '\n')).length ≤ index) :
    wordsOfLine source index = [] := by
  rw [wordsOfLine, List.getD_eq_default _ _ hindex]
  rfl

theorem words_eq_of_map_ofList {piece piece' : List Char}
    (hwords : (words piece).map String.ofList = (words piece').map String.ofList) :
    words piece = words piece' :=
  List.map_injective_iff.mpr (fun _ _ => String.ofList_injective) hwords

/-- **Compiling depends on words only.**  Sources with the same words on each of their lines come to
the same, whatever the white space around the words and at the ends of lines is. -/
theorem sameOutcome_of_wordsOfLine (settings : Settings) {source source' : String}
    (hwords : ∀ index, wordsOfLine source index = wordsOfLine source' index) :
    SameOutcome (compile settings source) (compile settings source') := by
  refine sameOutcome_of_findings settings ?_
  simp only [findings_eq_findingsOfLines, wordsOfLine] at hwords ⊢
  generalize source.toList.splitOnP (· == '\n') = pieces at hwords ⊢
  generalize source'.toList.splitOnP (· == '\n') = pieces' at hwords ⊢
  -- with empty lines at their ends both sources have lines in the same number
  rw [← findingsOfLines_append_nils none 1 0 pieces (pieces'.length - pieces.length),
    ← findingsOfLines_append_nils none 1 0 pieces' (pieces.length - pieces'.length)]
  refine findingsOfLines_alike .none (forall₂_linesFrom 1 0 0 (List.forall₂_iff_get.mpr ⟨?_, ?_⟩))
  · simp only [List.length_append, List.length_replicate]
    omega
  · intro index hindex hindex'
    -- line by line, an empty line having no words
    refine pieceAlike_of_words (words_eq_of_map_ofList ?_)
    rw [List.get_eq_getElem, List.get_eq_getElem, getElem_append_nils, getElem_append_nils]
    exact hwords index

/-- Carriage returns, tabs, full-width blanks and indentation. -/
theorem sameOutcome_of_wordsOfLine_block :
    (∀ index, wordsOfLine "if a:\nprint b # c\nend" index =
      wordsOfLine " if\ta:\r\n\u3000print   b #\u3000c \r\n\tend\r\n" index) ∧
      SameOutcome (compile .default "if a:\nprint b # c\nend")
        (compile .default " if\ta:\r\n\u3000print   b #\u3000c \r\n\tend\r\n") := by
  have hwords : ∀ index, wordsOfLine "if a:\nprint b # c\nend" index =
      wordsOfLine " if\ta:\r\n\u3000print   b #\u3000c \r\n\tend\r\n" index := by
    intro index
    by_cases hlt : index < 4
    · have hlines : ∀ line < 4, wordsOfLine "if a:\nprint b # c\nend" line =
          wordsOfLine " if\ta:\r\n\u3000print   b #\u3000c \r\n\tend\r\n" line := by
        decide +kernel
      exact hlines index hlt
    · have hle : 4 ≤ index := Nat.le_of_not_lt hlt
      rw [wordsOfLine_of_le (Nat.le_trans (by decide +kernel) hle),
        wordsOfLine_of_le (Nat.le_trans (by decide +kernel) hle)]
  exact ⟨hwords, sameOutcome_of_wordsOfLine .default hwords⟩

/-! ## Ornaments -/

/-- Words that adorn a line: a state glyph, a pictograph without a comment in it, or both in this
order. -/
inductive IsOrnament : List String → Prop
  | glyph (state : LineState) : IsOrnament [state.glyph]
  | pictograph {word : String} (hword : isPictograph word = true) (hmark : '#' ∉ word.toList) :
      IsOrnament [word]
  | both (state : LineState) {word : String} (hword : isPictograph word = true)
      (hmark : '#' ∉ word.toList) : IsOrnament [state.glyph, word]

/-- A line without ornaments: it is no marker of block comments, and it has a first word in front of
its comment, which is neither a state glyph nor a pictograph. -/
def IsPlain (piece : List Char) : Prop :=
  EachLine.isMarker piece = false ∧ ∃ first rest, EachLine.words piece = first :: rest ∧
    LineState.ofGlyph? first = none ∧ isPictograph first = false

/-- The second line is the first one, maybe with an ornament in front of its words. -/
inductive Adorned : List Char → List Char → Prop
  | same (piece : List Char) : Adorned piece piece
  | ornament {piece piece' : List Char} {ornament : List String} (hornament : IsOrnament ornament)
      (hplain : IsPlain piece) (hwords : words piece' = ornament.map String.toList ++ words piece) :
      Adorned piece piece'

/-- A state glyph is no pictograph. -/
theorem ofGlyph?_of_isPictograph {word : String} (hword : isPictograph word = true) :
    LineState.ofGlyph? word = none := by
  unfold LineState.ofGlyph?
  split
  case h_6 => rfl
  all_goals exact absurd hword (by decide)

namespace IsOrnament

variable {ornament : List String}

theorem ne_nil (hornament : IsOrnament ornament) : ornament ≠ [] := by
  cases hornament <;> exact List.cons_ne_nil _ _

/-- The content of a line begins behind its ornament. -/
theorem content_append (hornament : IsOrnament ornament) {first : String} {rest : List String}
    (hpictograph : isPictograph first = false) :
    (Ornaments.ofWords (ornament ++ first :: rest)).content = first :: rest := by
  cases hornament with
  | glyph state => simp [Ornaments.ofWords, Ornaments.withState, hpictograph]
  | pictograph hword hmark =>
      simp [Ornaments.ofWords, Ornaments.withState, ofGlyph?_of_isPictograph hword, hword]
  | both state hword hmark => simp [Ornaments.ofWords, Ornaments.withState, hword]

/-- An ornament is not empty, and has no comment in it. -/
theorem of_mem (hornament : IsOrnament ornament) {word : List Char}
    (hmem : word ∈ ornament.map String.toList) : word ≠ [] ∧ '#' ∉ word := by
  have hglyph (state : LineState) : state.glyph.toList ≠ [] ∧ '#' ∉ state.glyph.toList := by
    cases state <;> decide
  -- a pictograph has at least one character
  have hpictograph {word : String} (hword : isPictograph word = true) : word.toList ≠ [] := by
    intro hnil
    rw [isPictograph, hnil] at hword
    cases hword
  cases hornament with
  | glyph state =>
      rw [List.mem_singleton.mp hmem]
      exact hglyph state
  | pictograph hword hmark =>
      rw [List.mem_singleton.mp hmem]
      exact ⟨hpictograph hword, hmark⟩
  | both state hword hmark =>
      rcases List.mem_pair.mp hmem with rfl | rfl
      · exact hglyph state
      · exact ⟨hpictograph hword, hmark⟩

variable {line line' : SourceLine}

theorem words_eq (hornament : IsOrnament ornament)
    (hwords : words line'.text = ornament.map String.toList ++ words line.text) :
    line'.words = ornament ++ line.words := by
  calc line'.words
      = (wordsBefore '#' (words line'.text)).map String.ofList := line'.words_eq
    _ = (ornament.map String.toList ++ wordsBefore '#' (words line.text)).map String.ofList := by
        rw [hwords, wordsBefore_append fun word => hornament.of_mem]
    _ = ornament ++ line.words := by
        rw [List.map_append, ← line.words_eq]
        simp

/-- A marker of block comments is a word of its own. -/
theorem isCommentMarker_eq_false (hornament : IsOrnament ornament)
    (hwords : words line'.text = ornament.map String.toList ++ words line.text)
    (hne : line.words ≠ []) : line'.isCommentMarker = false := by
  have hnil : words line.text ≠ [] := by
    intro hnil
    rw [line.words_eq, hnil] at hne
    exact hne rfl
  rw [Bool.eq_false_iff, ne_eq, SourceLine.isCommentMarker_iff, hwords,
    List.append_eq_singleton_iff]
  simp [hornament.ne_nil, hnil]

theorem contains_mark_eq (hornament : IsOrnament ornament)
    (hwords : words line'.text = ornament.map String.toList ++ words line.text) :
    line'.text.contains '#' = line.text.contains '#' := by
  have hnone : ¬ ∃ word ∈ ornament.map String.toList, '#' ∈ word := by
    rintro ⟨word, hmem, hmark⟩
    exact (hornament.of_mem hmem).2 hmark
  rw [Bool.eq_iff_iff, SourceLine.contains_mark_iff, SourceLine.contains_mark_iff, hwords]
  simp only [List.mem_append, or_and_right, exists_or]
  exact or_iff_right hnone

/-- Scanning makes out the same on a line with an ornament. -/
theorem alike (hornament : IsOrnament ornament) {first : String} {rest : List String}
    (hnumber : line.number = line'.number) (hmarker : line.isCommentMarker = false)
    (hfirst : line.words = first :: rest) (hglyph : LineState.ofGlyph? first = none)
    (hpictograph : isPictograph first = false)
    (hwords : words line'.text = ornament.map String.toList ++ words line.text) :
    line.Alike line' := by
  -- the ornaments come first, and a plain line has none of its own
  have hcode : line'.words = ornament ++ first :: rest := by
    rw [hornament.words_eq hwords, hfirst]
  have hne : line.words ≠ [] := by
    rw [hfirst]
    exact List.cons_ne_nil first rest
  refine ⟨hnumber, ?_, ?_, ?_⟩
  · rw [hmarker, hornament.isCommentMarker_eq_false hwords hne]
  · rw [hcode, hornament.content_append hpictograph, hfirst]
    simp [Ornaments.ofWords, Ornaments.withState, hglyph, hpictograph]
  · rw [SourceLine.isSome_commentDiagnostic?, SourceLine.isSome_commentDiagnostic?, hcode, hfirst,
      hornament.contains_mark_eq hwords]
    simp

end IsOrnament

theorem EachLine.words_eq (piece : List Char) :
    EachLine.words piece = (wordsBefore '#' (Text.words piece)).map String.ofList := by
  rw [EachLine.words, ← words_takeWhile_trim (by decide), words_takeWhile (by decide)]

theorem Adorned.pieceAlike {piece piece' : List Char} (hadorned : Adorned piece piece') :
    PieceAlike piece piece' := by
  cases hadorned with
  | same => exact pieceAlike_of_words rfl
  | ornament hornament hplain hwords =>
      obtain ⟨hmarker, first, rest, hfirst, hglyph, hpictograph⟩ := hplain
      intro number start start'
      have hcode :
          (SourceLine.mk number start (Source.dropReturn piece)).words = first :: rest := by
        rw [SourceLine.words_eq, words_dropReturn, ← EachLine.words_eq, hfirst]
      refine hornament.alike rfl ?_ hcode hglyph hpictograph ?_
      · rwa [SourceLine.isCommentMarker, trim_dropReturn]
      · rw [words_dropReturn, words_dropReturn, hwords]

/-- **Ornaments have no effect.**  A source with state glyphs and pictographs in front of any of its
lines comes to the same as the source without them. -/
theorem sameOutcome_of_adorned (settings : Settings) {source source' : String}
    (hpieces : List.Forall₂ Adorned (source.toList.splitOnP (· == '\n'))
      (source'.toList.splitOnP (· == '\n'))) :
    SameOutcome (compile settings source) (compile settings source') :=
  sameOutcome_of_findings settings
    (findings_alike (hpieces.imp fun _ _ hadorned => hadorned.pieceAlike))

/-- Lines with a state glyph and a pictograph, with a state glyph, and with a face. -/
theorem sameOutcome_of_adorned_block :
    List.Forall₂ Adorned ("if a:\n~~\nb\n~~\n\tprint b # c\nend".toList.splitOnP (· == '\n'))
        ("> 🌸 if a:\n~~\nb\n~~\n\t! print b # c\n(^_^) end".toList.splitOnP (· == '\n')) ∧
      SameOutcome (compile .default "if a:\n~~\nb\n~~\n\tprint b # c\nend")
        (compile .default "> 🌸 if a:\n~~\nb\n~~\n\t! print b # c\n(^_^) end") := by
  have hsource : "if a:\n~~\nb\n~~\n\tprint b # c\nend".toList.splitOnP (· == '\n') =
      ["if a:".toList, "~~".toList, "b".toList, "~~".toList, "\tprint b # c".toList,
        "end".toList] := by
    decide +kernel
  have hadorned : "> 🌸 if a:\n~~\nb\n~~\n\t! print b # c\n(^_^) end".toList.splitOnP (· == '\n') =
      ["> 🌸 if a:".toList, "~~".toList, "b".toList, "~~".toList, "\t! print b # c".toList,
        "(^_^) end".toList] := by
    decide +kernel
  have hpieces : List.Forall₂ Adorned
      ("if a:\n~~\nb\n~~\n\tprint b # c\nend".toList.splitOnP (· == '\n'))
      ("> 🌸 if a:\n~~\nb\n~~\n\t! print b # c\n(^_^) end".toList.splitOnP (· == '\n')) := by
    rw [hsource, hadorned]
    refine .cons (.ornament (@IsOrnament.both .advance "🌸" ?_ ?_) ⟨?_, "if", ["a:"], ?_⟩ ?_)
      (.cons (.same _) (.cons (.same _) (.cons (.same _)
        (.cons (.ornament (.glyph .strong) ⟨?_, "print", ["b"], ?_⟩ ?_)
          (.cons (.ornament (@IsOrnament.pictograph "(^_^)" ?_ ?_) ⟨?_, "end", [], ?_⟩ ?_) .nil)))))
    all_goals decide +kernel
  exact ⟨hpieces, sameOutcome_of_adorned .default hpieces⟩

end LineScript
