import LineScript.Proofs.Source.EachLine
import LineScript.Report

/-!
# Lines and columns

Lines are counted twice.  The scanner counts line feeds while it cuts the source, and hands on spans
that count bytes.  A report counts anew, from the beginning of the source to the first byte of a
span, and for it there are more characters that end a line.  Main statement: where only line feeds
end lines, with or without a return (`plainBreaks`), both counts agree: a span that begins somewhere
in a line is reported at the number of that line, and at the column behind the characters in front
of it (`place_ofSpan`).

## Strategy

`advance` goes on from a line and a column by a number of bytes, and is followed through the source
in three steps: over complete lines, each of which adds one to the number and sets the column back
(`advance_lines`), over characters of one line, each of which adds one to the column whatever its
length in bytes (`advance_within`), and then by nothing.  The offset of a span is the length of what
stands in front of it, and so the first two steps use it up exactly.

A span that starts behind the last character of a line would be counted to the next line or to none,
which is why something has to follow it on its line.
-/

namespace LineScript

open Text

/-- Lines end at line feeds only, and at no other character that ends lines in reports, but for a
return directly in front of a line feed. -/
def Source.plainBreaks : List Char → Bool
  | [] => true
  | c :: rest =>
      (!Place.isLineBreak c || c == '\n' || c == '\r' && rest.head? == some '\n') &&
        plainBreaks rest

theorem Source.plainBreaks_of_cons {c : Char} {rest : List Char}
    (hplain : plainBreaks (c :: rest) = true) : plainBreaks rest = true :=
  (Bool.and_eq_true_iff.mp hplain).2

theorem Source.plainBreaks_of_append {front rest : List Char}
    (hplain : plainBreaks (front ++ rest) = true) : plainBreaks rest = true := by
  induction front with
  | nil => exact hplain
  | cons c front ih => exact ih (plainBreaks_of_cons hplain)

namespace Place

open Source

variable {c : Char} {text rest : List Char} {offset : Nat}

theorem beginsLine_eq_false (hplain : plainBreaks (c :: rest) = true) (hc : c ≠ '\n') :
    beginsLine c rest = false := by
  simp only [plainBreaks, Bool.and_eq_true, Bool.or_eq_true, Bool.not_eq_true',
    beq_iff_eq] at hplain
  rcases hplain.1 with (hbreak | hfeed) | ⟨hreturn, hfeed⟩
  · simp [beginsLine, hbreak]
  · exact absurd hfeed hc
  · simp [beginsLine, hreturn, hfeed]

theorem beginsLine_lineFeed (hrest : rest ≠ []) : beginsLine '\n' rest = true := by
  have hfeed : isLineBreak '\n' = true ∧ ('\n' == '\r') = false := by
    decide
  simp [beginsLine, hfeed, hrest]

/-- Within a line every character is a column. -/
theorem advance_within (hplain : plainBreaks (text ++ rest) = true) (hfeed : '\n' ∉ text)
    (line column : Nat) :
    advance ⟨line, column⟩ (byteLength text + offset) (text ++ rest) =
      advance ⟨line, column + text.length⟩ offset rest := by
  induction text generalizing column with
  | nil => rw [byteLength_nil, Nat.zero_add, List.nil_append, List.length_nil, Nat.add_zero]
  | cons c text ih =>
      obtain ⟨hc, hfeed⟩ := List.ne_and_not_mem_of_not_mem_cons hfeed
      -- the offset is not inside of this character
      have hinside : ¬ c.utf8Size + byteLength text + offset < c.utf8Size := by omega
      have hoffset : c.utf8Size + byteLength text + offset - c.utf8Size =
          byteLength text + offset := by omega
      rw [List.cons_append] at hplain ⊢
      rw [byteLength_cons, advance, if_neg hinside, beginsLine_eq_false hplain hc.symm,
        if_neg Bool.false_ne_true, hoffset, ih (plainBreaks_of_cons hplain) hfeed,
        List.length_cons, Nat.add_right_comm, Nat.add_assoc]

/-- Behind a line feed a line begins, if there is any text behind it. -/
theorem advance_lineFeed (hrest : rest ≠ []) (line column : Nat) :
    advance ⟨line, column⟩ (1 + offset) ('\n' :: rest) = advance ⟨line + 1, 1⟩ offset rest := by
  have hsize : '\n'.utf8Size = 1 := rfl
  have hinside : ¬ 1 + offset < 1 := by omega
  rw [advance, hsize, if_neg hinside, if_pos (beginsLine_lineFeed hrest), Nat.add_sub_cancel_left]

/-- Behind lines, their number is added to that of the first line. -/
theorem advance_lines {lines : List (List Char)} (hlines : ∀ line ∈ lines, '\n' ∉ line)
    (hplain : plainBreaks (linesText lines ++ rest) = true) (hrest : rest ≠ []) (number : Nat) :
    advance ⟨number, 1⟩ (byteLength (linesText lines) + offset) (linesText lines ++ rest) =
      advance ⟨number + lines.length, 1⟩ offset rest := by
  induction lines generalizing number with
  | nil =>
      rw [show linesText [] = [] from rfl, byteLength_nil, Nat.zero_add]
      rfl
  | cons line lines ih =>
      obtain ⟨hline, hlines⟩ := List.forall_mem_cons.mp hlines
      have htext : linesText (line :: lines) ++ rest =
          line ++ ('\n' :: (linesText lines ++ rest)) := by
        simp [linesText]
      -- the line, its line feed, and the lines behind it
      have hlength : byteLength (linesText (line :: lines)) + offset =
          byteLength line + (1 + (byteLength (linesText lines) + offset)) := by
        have hfeed : byteLength ['\n'] = 1 := rfl
        simp only [linesText, List.flatMap_cons, byteLength_append, hfeed]
        omega
      have hbehind : linesText lines ++ rest ≠ [] := List.append_ne_nil_of_right_ne_nil _ hrest
      rw [htext] at hplain ⊢
      have hplain' := plainBreaks_of_cons (plainBreaks_of_append hplain)
      rw [hlength, advance_within hplain hline, advance_lineFeed hbehind, ih hlines hplain',
        List.length_cons, Nat.add_right_comm, Nat.add_assoc]

theorem advance_zero (place : Place) (text : List Char) : advance place 0 text = place := by
  cases text with
  | nil => rfl
  | cons c rest => exact if_pos c.utf8Size_pos

end Place

namespace EachLine

variable {source : String} {before after : List (List Char)} {piece front back : List Char}

/-! ## Lines -/

/-- Pieces are lines, each behind those before it. -/
theorem lineOf_mem_linesFrom (front : List (List Char)) :
    lineOf (front ++ before) piece ∈
      Source.linesFrom (front.length + 1) (offsetBehind front) (before ++ piece :: after) := by
  induction before generalizing front with
  | nil =>
      rw [List.append_nil]
      exact List.mem_cons_self
  | cons first before ih =>
      have hrest := ih (front ++ [first])
      rw [List.append_assoc, List.singleton_append, List.length_append,
        offsetBehind_concat] at hrest
      exact List.mem_cons_of_mem _ hrest

theorem lineOf_mem_lines (hpieces : Source.pieces source.toList = before ++ piece :: after) :
    lineOf before piece ∈ Source.lines source := by
  rw [Source.lines, hpieces]
  exact lineOf_mem_linesFrom []

/-- A token comes from a line of the source. -/
theorem exists_piece_of_mem_tokensOf {token : LineToken}
    (hmem : token ∈ tokensOf (findings source)) :
    ∃ before piece after, Source.pieces source.toList = before ++ piece :: after ∧
      token? before piece = some token := by
  rw [tokensOf_findings] at hmem
  obtain ⟨front, back, hcollect⟩ := List.append_of_mem hmem
  obtain ⟨before, piece, after, hpieces, -, htoken⟩ := exists_piece_of_collect_eq hcollect
  exact ⟨before, piece, after, hpieces, htoken⟩

theorem read_of_token? {token : LineToken} (htoken : token? before piece = some token) :
    IsRead before piece ∧ beginsWithWord piece = true := by
  by_contra hread
  rw [token?, if_neg hread] at htoken
  cases htoken

theorem dropReturn_ne_nil (htrim : trim piece ≠ []) : Source.dropReturn piece ≠ [] := by
  intro hnil
  rw [← trim_dropReturn, hnil] at htrim
  exact htrim rfl

theorem dropReturn_ne_nil_of_token? {token : LineToken}
    (htoken : token? before piece = some token) :
    Source.dropReturn piece ≠ [] := by
  apply dropReturn_ne_nil
  intro htrim
  have hbegins := (read_of_token? htoken).2
  rw [beginsWithWord, htrim] at hbegins
  cases hbegins

/-! ## Places in lines -/

/-- A byte of a line is at the number of the line, and in the column behind what is in front of it.
-/
theorem ofOffset_eq (hplain : Source.plainBreaks source.toList = true)
    (hpieces : Source.pieces source.toList = before ++ piece :: after)
    (hline : Source.dropReturn piece = front ++ back) (hback : back ≠ []) :
    Place.ofOffset source (offsetBehind before + byteLength front) =
      ⟨before.length + 1, front.length + 1⟩ := by
  obtain ⟨behind, hsource⟩ := exists_eq_lineText_append hpieces
  rw [hline, List.append_assoc, List.append_assoc] at hsource
  have hfeeds : ∀ line ∈ before ++ piece :: after, '\n' ∉ line := fun line hmem =>
    Source.not_mem_of_mem_pieces (hpieces ▸ hmem)
  have hbefore : ∀ line ∈ before, '\n' ∉ line := fun line hmem =>
    hfeeds line (List.mem_append_left _ hmem)
  -- the characters in front are part of one line
  have hfront : '\n' ∉ front := by
    have hpiece := Source.not_mem_dropReturn (hfeeds piece (by simp))
    rw [hline] at hpiece
    exact fun hmem => hpiece (List.mem_append_left back hmem)
  have hrest : front ++ (back ++ behind) ≠ [] := by
    simp [hback]
  rw [hsource] at hplain
  rw [Place.ofOffset, hsource, ← byteLength_linesText, ← Nat.add_zero (byteLength front),
    Place.advance_lines hbefore hplain hrest,
    Place.advance_within (Source.plainBreaks_of_append hplain) hfront, Place.advance_zero,
    Nat.add_comm 1, Nat.add_comm 1]

theorem isInside_of_line (hpieces : Source.pieces source.toList = before ++ piece :: after)
    (hline : Source.dropReturn piece = front ++ back) :
    Report.isInside ⟨offsetBehind before + byteLength front, (span before piece).stop⟩
      (byteLength source.toList) = true := by
  obtain ⟨behind, hsource⟩ := exists_eq_lineText_append hpieces
  have hsize := congrArg byteLength hsource
  simp only [hline, byteLength_append, byteLength_linesText] at hsize
  have hstop : (span before piece).stop =
      offsetBehind before + (byteLength front + byteLength back) := by
    rw [span, hline, byteLength_append]
  simp only [Report.isInside, hstop, Bool.and_eq_true, Bool.or_eq_true, decide_eq_true_eq]
  omega

/-- What is reported on the end of a line, from a character of it on, is reported at that
character. -/
theorem place_ofSpan (hplain : Source.plainBreaks source.toList = true)
    (hpieces : Source.pieces source.toList = before ++ piece :: after)
    (hline : Source.dropReturn piece = front ++ back) (hback : back ≠ [])
    (title message : String) :
    (Report.ofSpan title message source
        (some ⟨offsetBehind before + byteLength front, (span before piece).stop⟩)).place =
      some ⟨before.length + 1, front.length + 1⟩ := by
  have hinside := isInside_of_line hpieces hline
  rw [← ofOffset_eq hplain hpieces hline hback]
  simp [Report.ofSpan, Option.filter, hinside]

/-- What is reported on a whole line is reported at its first column. -/
theorem place_ofSpan_span (hplain : Source.plainBreaks source.toList = true)
    (hpieces : Source.pieces source.toList = before ++ piece :: after)
    (hne : Source.dropReturn piece ≠ []) (title message : String) :
    (Report.ofSpan title message source (some (span before piece))).place =
      some ⟨before.length + 1, 1⟩ :=
  place_ofSpan hplain hpieces (List.nil_append _).symm hne title message

end EachLine

end LineScript
