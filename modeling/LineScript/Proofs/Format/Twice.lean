import LineScript.Proofs.Format.Shape

/-!
# Formatting twice

A formatted source is formatted.  The first run writes every line in a form that the second one
writes again, because neither the text of a line nor the level and the block comment that the lines
before it leave depend on white space at the ends of lines (`indentLines_indentLines`).

One thing would still go wrong.  Cutting a source into lines drops one carriage return in front of a
line feed, and so would the second run, inside of block comments, where lines keep what is left of
theirs.  Main statement: without two carriage returns in front of a line feed, formatting twice is
formatting once (`format_format`).

The two sources are compared by their pieces between line feeds.  The condition on carriage returns
is used once, for the pieces of the first source (`dropReturn_dropReturn`).  From there on it is
kept by itself: a written line is empty, a marker, a line of a comment that had lost its carriage
return before, or ends with a character of its text, and so cutting the formatted source into lines
drops nothing.
-/

namespace LineScript

open Text

/-! ## Written lines -/

namespace Format

variable {indent : List Char} {lines : List (List Char)}

/-- **The invariant.**  Written lines lead to the levels and block comments that the lines
themselves led to, and so each of them is written as it is. -/
theorem indentLines_indentLines (hindent : Blank indent) (level : Nat) (inComment : Bool)
    (lines : List (List Char)) :
    indentLines indent level inComment (indentLines indent level inComment lines) =
      indentLines indent level inComment lines := by
  induction lines generalizing level inComment with
  | nil => rfl
  | cons line rest ih =>
      by_cases hempty : trim line = []
      · rw [indentLines_blank hempty, indentLines_blank rfl, ih]
      by_cases hmarker : trim line = "~~".toList
      · rw [indentLines_marker hmarker, indentLines_marker (by rfl), ih]
      cases inComment with
      | true => rw [indentLines_comment hempty hmarker, indentLines_comment hempty hmarker, ih]
      | false =>
          -- the written line has the same text, hence the same shape
          have htrim : ∀ level, trim (indented indent level (trim line)) = trim line := by
            intro level
            rw [trim_indented hindent, trim_trim]
          rw [indentLines_code hempty hmarker, indentLines_code (by rwa [htrim]) (by rwa [htrim]),
            htrim, ih]

theorem formatLines_formatLines (hindent : Blank indent) (lines : List (List Char)) :
    formatLines indent (formatLines indent lines) = formatLines indent lines := by
  unfold formatLines
  split
  · rw [List.map_map]
    exact List.map_congr_left fun line _ => trimEnd_trimEnd line
  · exact indentLines_indentLines hindent 0 false lines

/-! ### Their ends -/

theorem dropReturn_trimEnd (text : List Char) :
    Source.dropReturn (trimEnd text) = trimEnd text := by
  rw [Source.dropReturn_eq_self_iff]
  intro hlast
  have hnot := List.head?_dropWhile_not isBlank text.reverse
  rw [trimEnd, List.getLast?_reverse] at hlast
  rw [hlast] at hnot
  exact absurd hnot (by decide)

/-- Written lines end with a carriage return only where the lines themselves do. -/
theorem dropReturn_of_mem_indentLines (level : Nat) (inComment : Bool)
    (hlines : ∀ line ∈ lines, Source.dropReturn line = line) :
    ∀ line ∈ indentLines indent level inComment lines, Source.dropReturn line = line := by
  induction lines generalizing level inComment with
  | nil => exact hlines
  | cons line rest ih =>
      obtain ⟨hline, hrest⟩ := List.forall_mem_cons.mp hlines
      by_cases hempty : trim line = []
      · rw [indentLines_blank hempty]
        exact List.forall_mem_cons.mpr ⟨rfl, ih _ _ hrest⟩
      by_cases hmarker : trim line = "~~".toList
      · rw [indentLines_marker hmarker]
        exact List.forall_mem_cons.mpr ⟨by rfl, ih _ _ hrest⟩
      cases inComment with
      | true =>
          rw [indentLines_comment hempty hmarker]
          exact List.forall_mem_cons.mpr ⟨hline, ih _ _ hrest⟩
      | false =>
          -- an indented line ends with the last character of its text
          have htext : hasText line = true := by simp [hasText, hempty]
          rw [indentLines_code hempty hmarker]
          exact List.forall_mem_cons.mpr ⟨dropReturn_indented htext, ih _ _ hrest⟩

theorem dropReturn_of_mem_formatLines (hlines : ∀ line ∈ lines, Source.dropReturn line = line) :
    ∀ line ∈ formatLines indent lines, Source.dropReturn line = line := by
  unfold formatLines
  split
  · intro line hline
    obtain ⟨original, -, rfl⟩ := List.mem_map.mp hline
    exact dropReturn_trimEnd original
  · exact dropReturn_of_mem_indentLines 0 false hlines

end Format

/-! ## The formatted source -/

/-- **Formatting is idempotent.**  For any indentation of white space, formatting a source without
two carriage returns in front of a line feed leaves nothing to format. -/
theorem format_format {indent source : String}
    (hindent : ∀ c ∈ indent.toList, isBlank c = true ∧ c ≠ '\n')
    (hreturns : ¬ ['\r', '\r', '\n'] <:+: source.toList) :
    format indent (format indent source) = format indent source := by
  have hblank : Blank indent.toList := fun c hc => (hindent c hc).1
  have hfeed : '\n' ∉ indent.toList := fun hmem => (hindent '\n' hmem).2 rfl
  obtain ⟨front, last, hsource⟩ := exists_splitOnP_eq_concat source.toList
  have hlines : ∀ line ∈ front.map Source.dropReturn, Source.dropReturn line = line := by
    intro line hline
    obtain ⟨piece, hpiece, rfl⟩ := List.mem_map.mp hline
    -- a second carriage return would stand in front of a line feed
    refine Source.dropReturn_dropReturn fun hsuffix => hreturns ?_
    have hends : ['\r', '\r'] ++ ['\n'] <:+ piece ++ ['\n'] :=
      (List.suffix_append_inj_of_length_eq rfl).mpr ⟨hsuffix, rfl⟩
    exact hends.isInfix.trans (Source.infix_of_mem_splitOnP hsource hpiece)
  obtain ⟨last', -, hconcat⟩ := Format.exists_formatLines_concat indent.toList
    (front.map Source.dropReturn) last
  have hfirst : (format indent source).toList.splitOnP (· == '\n') =
      Format.formatLines indent.toList (front.map Source.dropReturn) ++ [last'] := by
    rw [splitOnP_format hfeed hsource, hconcat]
  -- what the first run wrote loses no carriage return
  have hwritten : ∀ line ∈ Format.formatLines indent.toList (front.map Source.dropReturn),
      Source.dropReturn line = line := Format.dropReturn_of_mem_formatLines hlines
  -- piece by piece the second run writes what is there
  have hpieces : (format indent (format indent source)).toList.splitOnP (· == '\n') =
      (format indent source).toList.splitOnP (· == '\n') := by
    rw [splitOnP_format hfeed hfirst, Source.map_dropReturn_eq_self hwritten, ← hconcat,
      Format.formatLines_formatLines hblank, hconcat, hfirst]
  have htexts : (format indent (format indent source)).toList = (format indent source).toList := by
    rw [← intercalate_splitOnP (format indent (format indent source)).toList, hpieces,
      intercalate_splitOnP]
  exact String.toList_injective htexts

/-- Carriage returns, a block comment and a blank last line, under an indent of two kinds of
white space: the last line turns into a line feed at the end. -/
theorem format_format_comment :
    (∀ c ∈ "\u3000\t".toList, isBlank c = true ∧ c ≠ '\n') ∧
      (¬ ['\r', '\r', '\n'] <:+: "if a:\r\nelse: \n ~~\r\n  b \r\n\t~~ \nc # d:\n ".toList) ∧
      format "\u3000\t" "if a:\r\nelse: \n ~~\r\n  b \r\n\t~~ \nc # d:\n " =
        "if a:\nelse:\n~~\n  b \n~~\n\u3000\tc # d:\n" ∧
      format "\u3000\t"
          (format "\u3000\t" "if a:\r\nelse: \n ~~\r\n  b \r\n\t~~ \nc # d:\n ") =
        format "\u3000\t" "if a:\r\nelse: \n ~~\r\n  b \r\n\t~~ \nc # d:\n " := by
  have hindent : ∀ c ∈ "\u3000\t".toList, isBlank c = true ∧ c ≠ '\n' := by
    intro c hc
    obtain rfl | rfl : c = '\u3000' ∨ c = '\t' := by simpa using hc
    · exact ⟨by decide, by decide⟩
    · exact ⟨by decide, by decide⟩
  have hreturns : ¬ ['\r', '\r', '\n'] <:+:
      "if a:\r\nelse: \n ~~\r\n  b \r\n\t~~ \nc # d:\n ".toList := by
    decide +kernel
  exact ⟨hindent, hreturns, by decide +kernel, format_format hindent hreturns⟩

/-- Inside of a block comment each run takes one carriage return from a line. -/
example : format " " "~~\na\r\r\n~~" = "~~\na\r\n~~" ∧
    format " " "~~\na\r\n~~" = "~~\na\n~~" := by
  decide +kernel

end LineScript
