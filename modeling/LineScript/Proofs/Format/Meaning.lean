import LineScript.Format
import LineScript.Proofs.Program.Outcome
import LineScript.Proofs.Source.Pieces

/-!
# Formatting keeps the meaning

Formatting works on the pieces between the line feeds of a source (`splitOnP_format`).  It changes
nothing but the white space at their ends (`map_trim_pieces_format`), and scanning reads trimmed
lines.  So a formatted source compiles to the same code with the same remarks, or fails in the same
way, for any indentation of white space (`sameOutcome_format`).

## Strategy

* **Line by line.**  A line is blank, a marker of block comments, inside of such a comment, or code.
  `indentLines_blank`, `indentLines_marker`, `indentLines_comment` and `indentLines_code` are what
  formatting does in these four cases, and all inductions over its lines split into them.
* **The end of the source.**  A source is cut into lines in one way by formatting and in another by
  scanning: for the former a line feed ends a line, for the latter it parts two pieces, the last of
  which may be empty.  `splitOnP_format` connects them.  It needs that an empty last piece stays
  empty (`exists_indentLines_concat`), and that no line feed comes in between, so that the indent
  must not contain one.
* **Carriage returns.**  A line may end with one.  Formatting drops it, and scanning does not see it
  either, since it is white space.
-/

namespace LineScript

open Text

/-! ## Lines -/

namespace Format

variable {indent : List Char}

theorem blank_replicate (hindent : Blank indent) (level : Nat) :
    Blank (List.replicate level indent).flatten := by
  intro c hc
  obtain ⟨copy, hcopy, hmem⟩ := List.mem_flatten.mp hc
  rw [List.eq_of_mem_replicate hcopy] at hmem
  exact hindent c hmem

theorem trim_indented (hindent : Blank indent) (level : Nat) (text : List Char) :
    trim (indented indent level text) = trim text :=
  trim_blank_append (blank_replicate hindent level) text

section Equations

variable {line : List Char} {level : Nat} {inComment : Bool}

theorem indentLines_blank (hempty : trim line = []) (rest : List (List Char)) :
    indentLines indent level inComment (line :: rest) =
      [] :: indentLines indent level inComment rest := by
  rw [indentLines]
  simp only [hempty, List.isEmpty_nil, if_true]

theorem indentLines_marker (hmarker : trim line = "~~".toList) (rest : List (List Char)) :
    indentLines indent level inComment (line :: rest) =
      "~~".toList :: indentLines indent level (!inComment) rest := by
  rw [indentLines, hmarker]
  rfl

theorem indentLines_comment (htext : trim line ≠ []) (hmarker : trim line ≠ "~~".toList)
    (rest : List (List Char)) :
    indentLines indent level true (line :: rest) = line :: indentLines indent level true rest := by
  have hempty : (trim line).isEmpty = false := List.isEmpty_eq_false_iff.mpr htext
  rw [indentLines]
  simp only [hempty, beq_eq_false_iff_ne.mpr hmarker, Bool.false_eq_true, if_false, if_true]

theorem indentLines_code (htext : trim line ≠ []) (hmarker : trim line ≠ "~~".toList)
    (rest : List (List Char)) :
    indentLines indent level false (line :: rest) =
      indented indent ((shapeOf (trim line)).levelOf level) (trim line) ::
        indentLines indent ((shapeOf (trim line)).levelAfter level) false rest := by
  have hempty : (trim line).isEmpty = false := List.isEmpty_eq_false_iff.mpr htext
  rw [indentLines]
  simp only [hempty, beq_eq_false_iff_ne.mpr hmarker, Bool.false_eq_true, if_false]

end Equations

/-- Indenting changes only the white space at the ends of lines. -/
theorem map_trim_indentLines (hindent : Blank indent) (level : Nat) (inComment : Bool)
    (lines : List (List Char)) :
    (indentLines indent level inComment lines).map trim = lines.map trim := by
  induction lines generalizing level inComment with
  | nil => rfl
  | cons line rest ih =>
      by_cases hempty : trim line = []
      · rw [indentLines_blank hempty, List.map_cons, List.map_cons, ih, hempty]
        rfl
      by_cases hmarker : trim line = "~~".toList
      · rw [indentLines_marker hmarker, List.map_cons, List.map_cons, ih, hmarker]
        rfl
      cases inComment with
      -- inside of a block comment lines stay as they are
      | true => rw [indentLines_comment hempty hmarker, List.map_cons, List.map_cons, ih]
      | false =>
          rw [indentLines_code hempty hmarker, List.map_cons, List.map_cons, ih,
            trim_indented hindent, trim_trim]

theorem map_trim_formatLines (hindent : Blank indent) (lines : List (List Char)) :
    (formatLines indent lines).map trim = lines.map trim := by
  unfold formatLines
  split
  · rw [List.map_map]
    exact List.map_congr_left fun line _ => trim_trimEnd line
  · exact map_trim_indentLines hindent 0 false lines

theorem not_mem_indentLines {c : Char} (hindent : c ∉ indent) (level : Nat) (inComment : Bool)
    {lines : List (List Char)} (hlines : ∀ line ∈ lines, c ∉ line) :
    ∀ line ∈ indentLines indent level inComment lines, c ∉ line := by
  induction lines generalizing level inComment with
  | nil => exact hlines
  | cons line rest ih =>
      obtain ⟨hline, hrest⟩ := List.forall_mem_cons.mp hlines
      -- a written line is the indent and what is left of the line
      have htrim : c ∉ trim line := fun hmem => hline (mem_of_mem_trim hmem)
      by_cases hempty : trim line = []
      · rw [indentLines_blank hempty]
        exact List.forall_mem_cons.mpr ⟨List.not_mem_nil, ih _ _ hrest⟩
      by_cases hmarker : trim line = "~~".toList
      · rw [indentLines_marker hmarker]
        rw [hmarker] at htrim
        exact List.forall_mem_cons.mpr ⟨htrim, ih _ _ hrest⟩
      cases inComment with
      | true =>
          rw [indentLines_comment hempty hmarker]
          exact List.forall_mem_cons.mpr ⟨hline, ih _ _ hrest⟩
      | false =>
          rw [indentLines_code hempty hmarker]
          refine List.forall_mem_cons.mpr ⟨?_, ih _ _ hrest⟩
          simp [indented, hindent, htrim]

theorem not_mem_formatLines {c : Char} (hindent : c ∉ indent) {lines : List (List Char)}
    (hlines : ∀ line ∈ lines, c ∉ line) : ∀ line ∈ formatLines indent lines, c ∉ line := by
  unfold formatLines
  split
  · intro line hline
    obtain ⟨original, horiginal, rfl⟩ := List.mem_map.mp hline
    obtain ⟨back, -, heq⟩ := exists_eq_trimEnd original
    intro hmem
    refine hlines original horiginal ?_
    rw [heq]
    exact List.mem_append_left back hmem
  · exact not_mem_indentLines hindent 0 false hlines

theorem exists_indentLines_concat (indent : List Char) (level : Nat) (inComment : Bool)
    (front : List (List Char)) (last : List Char) :
    ∃ last', (last = [] → last' = []) ∧
      indentLines indent level inComment (front ++ [last]) =
        indentLines indent level inComment front ++ [last'] := by
  induction front generalizing level inComment with
  | nil =>
      by_cases hempty : trim last = []
      · exact ⟨[], fun _ => rfl, indentLines_blank hempty []⟩
      have hne : last ≠ [] := by
        rintro rfl
        exact hempty rfl
      by_cases hmarker : trim last = "~~".toList
      · exact ⟨_, fun hnil => absurd hnil hne, indentLines_marker hmarker []⟩
      cases inComment with
      | true => exact ⟨_, fun hnil => absurd hnil hne, indentLines_comment hempty hmarker []⟩
      | false => exact ⟨_, fun hnil => absurd hnil hne, indentLines_code hempty hmarker []⟩
  | cons line rest ih =>
      rw [List.cons_append]
      by_cases hempty : trim line = []
      · obtain ⟨last', hlast', heq⟩ := ih level inComment
        exact ⟨last', hlast', by simp only [indentLines_blank hempty, heq, List.cons_append]⟩
      by_cases hmarker : trim line = "~~".toList
      · -- a marker opens or closes a block comment for the lines behind it
        obtain ⟨last', hlast', heq⟩ := ih level (!inComment)
        exact ⟨last', hlast', by simp only [indentLines_marker hmarker, heq, List.cons_append]⟩
      cases inComment with
      | true =>
          obtain ⟨last', hlast', heq⟩ := ih level true
          exact ⟨last', hlast', by
            simp only [indentLines_comment hempty hmarker, heq, List.cons_append]⟩
      | false =>
          -- the shape of the line gives the level behind it
          obtain ⟨last', hlast', heq⟩ := ih ((shapeOf (trim line)).levelAfter level) false
          exact ⟨last', hlast', by
            simp only [indentLines_code hempty hmarker, heq, List.cons_append]⟩

/-- What a line becomes does not depend on the lines after it, and an empty one stays empty. -/
theorem exists_formatLines_concat (indent : List Char) (front : List (List Char))
    (last : List Char) :
    ∃ last', (last = [] → last' = []) ∧
      formatLines indent (front ++ [last]) = formatLines indent front ++ [last'] := by
  unfold formatLines
  split
  · exact ⟨trimEnd last, fun hnil => by rw [hnil]; rfl, List.map_append⟩
  · exact exists_indentLines_concat indent 0 false front last

theorem formatLines_ne_nil {lines : List (List Char)} (hne : lines ≠ []) :
    formatLines indent lines ≠ [] := by
  obtain ⟨front, last, rfl⟩ := List.eq_nil_or_concat lines |>.resolve_left hne
  obtain ⟨last', -, hconcat⟩ := exists_formatLines_concat indent front last
  rw [List.concat_eq_append, hconcat]
  exact List.concat_ne_nil _ _

end Format

/-! ## The formatted source -/

section Pieces

variable {indent : List Char} {front : List (List Char)} {last : List Char} {source : List Char}

theorem Format.lines_eq (hsource : source.splitOnP (· == '\n') = front ++ [last]) :
    Format.lines source =
      front.map Source.dropReturn ++ if last.isEmpty then [] else [last] := by
  simp [Format.lines, hsource]

theorem map_trim_dropReturn (lines : List (List Char)) :
    (lines.map Source.dropReturn).map trim = lines.map trim := by
  rw [List.map_map]
  exact List.map_congr_left fun line _ => trim_dropReturn line

/-- A source ends with a line feed exactly if its last piece is empty and not the only one. -/
theorem getLast?_eq_lineFeed_iff (hsource : source.splitOnP (· == '\n') = front ++ [last]) :
    source.getLast? = some '\n' ↔ last = [] ∧ front ≠ [] := by
  have htext : source = ['\n'].intercalate (front ++ [last]) := by
    rw [← hsource, intercalate_splitOnP]
  have hmem : last ∈ source.splitOnP (· == '\n') := by
    rw [hsource]
    exact List.mem_concat_self
  have hlast : '\n' ∉ last := not_mem_of_mem_splitOnP hmem
  have hnot : last.getLast? ≠ some '\n' := fun h => hlast (List.mem_of_getLast? h)
  -- with no piece in front there is no line feed at all
  by_cases hfront : front = []
  · subst hfront
    rw [List.nil_append, List.intercalate_singleton] at htext
    simp [htext, hnot]
  · rw [intercalate_concat hfront] at htext
    cases last with
    | nil => simp [htext, hfront]
    | cons c rest =>
        have hne : source.getLast? = (c :: rest).getLast? := by
          rw [htext, List.getLast?_append_cons, List.getLast?_cons_cons]
        simp [hne, hnot]

end Pieces

/-- Formatting works on the pieces of a source: without a carriage return in front of a line feed,
and blank or not, each of them becomes a piece of the formatted source. -/
theorem splitOnP_format {indent source : String} {front : List (List Char)} {last : List Char}
    (hfeed : '\n' ∉ indent.toList)
    (hsource : source.toList.splitOnP (· == '\n') = front ++ [last]) :
    (format indent source).toList.splitOnP (· == '\n') =
      Format.formatLines indent.toList (front.map Source.dropReturn ++ [last]) := by
  have hpieces : ∀ piece ∈ front ++ [last], '\n' ∉ piece := by
    intro piece hpiece
    rw [← hsource] at hpiece
    exact not_mem_of_mem_splitOnP hpiece
  have hfront : ∀ line ∈ front.map Source.dropReturn, '\n' ∉ line := by
    intro line hline
    obtain ⟨piece, hpiece, rfl⟩ := List.mem_map.mp hline
    exact Source.not_mem_dropReturn (hpieces piece (List.mem_append_left [last] hpiece))
  obtain ⟨last', hlast', hconcat⟩ :=
    Format.exists_formatLines_concat indent.toList (front.map Source.dropReturn) last
  rw [format, String.toList_ofList, Format.lines_eq hsource]
  by_cases hends : source.toList.getLast? = some '\n'
  · -- the last piece is empty, and the formatted source has such a piece as well
    obtain ⟨rfl, hne⟩ := (getLast?_eq_lineFeed_iff hsource).mp hends
    have hformatted : Format.formatLines indent.toList (front.map Source.dropReturn) ≠ [] :=
      Format.formatLines_ne_nil (by simpa using hne)
    rw [if_pos hends, List.isEmpty_nil, if_pos rfl, List.append_nil, splitOnP_append_lineFeed,
      splitOnP_intercalate hformatted (Format.not_mem_formatLines hfeed hfront), hconcat,
      hlast' rfl, List.splitOnP_nil]
  · rw [if_neg hends]
    cases last with
    | nil =>
        -- there is no line at all
        have hnil : front = [] := by
          by_contra hne
          exact hends ((getLast?_eq_lineFeed_iff hsource).mpr ⟨rfl, hne⟩)
        subst hnil
        have hnone : Format.formatLines indent.toList [] = [] := by
          simp [Format.formatLines, Format.indentLines]
        rw [hconcat, hlast' rfl]
        simp [hnone]
    | cons c rest =>
        have hlines : ∀ line ∈ front.map Source.dropReturn ++ [c :: rest], '\n' ∉ line := by
          intro line hline
          rcases List.mem_append.mp hline with h | h
          · exact hfront line h
          · exact hpieces line (List.mem_append_right front h)
        have hformatted : Format.formatLines indent.toList
            (front.map Source.dropReturn ++ [c :: rest]) ≠ [] :=
          Format.formatLines_ne_nil (by simp)
        rw [List.isEmpty_cons, if_neg Bool.false_ne_true]
        exact splitOnP_intercalate hformatted (Format.not_mem_formatLines hfeed hlines)

/-- Formatting changes only the white space at the ends of lines. -/
theorem map_trim_pieces_format {indent : String}
    (hindent : ∀ c ∈ indent.toList, isBlank c = true ∧ c ≠ '\n') (source : String) :
    ((format indent source).toList.splitOnP (· == '\n')).map trim =
      (source.toList.splitOnP (· == '\n')).map trim := by
  have hblank : Blank indent.toList := fun c hc => (hindent c hc).1
  have hfeed : '\n' ∉ indent.toList := fun hmem => (hindent '\n' hmem).2 rfl
  obtain ⟨front, last, hsource⟩ := exists_splitOnP_eq_concat source.toList
  rw [splitOnP_format hfeed hsource, hsource, Format.map_trim_formatLines hblank,
    List.map_append, List.map_append, map_trim_dropReturn]

/-! ## The outcome -/

/-- White space at the ends of lines has no effect on what a source compiles to. -/
theorem sameOutcome_of_map_trim_pieces (settings : Settings) {source source' : String}
    (htrim : (source.toList.splitOnP (· == '\n')).map trim =
      (source'.toList.splitOnP (· == '\n')).map trim) :
    SameOutcome (compile settings source) (compile settings source') := by
  refine sameOutcome_of_findings settings (findings_alike ?_)
  have hpieces : List.Forall₂ (fun piece piece' => trim piece = trim piece')
      (source.toList.splitOnP (· == '\n')) (source'.toList.splitOnP (· == '\n')) := by
    rwa [← List.forall₂_eq_eq_eq, List.forall₂_map_left_iff, List.forall₂_map_right_iff] at htrim
  refine hpieces.imp fun piece piece' heq => pieceAlike_of_words ?_
  rw [← words_trim, heq, words_trim]

/-- **Formatting keeps the meaning.**  A formatted source compiles to the same code with the same
remarks on the same lines as the source itself, or both fail alike. -/
theorem sameOutcome_format (settings : Settings) (source indent : String)
    (hindent : ∀ c ∈ indent.toList, isBlank c = true ∧ c ≠ '\n') :
    SameOutcome (compile settings (format indent source)) (compile settings source) :=
  sameOutcome_of_map_trim_pieces settings (map_trim_pieces_format hindent source)

/-- A source that formatting changes: its block is indented, a carriage return and trailing blanks
go. -/
theorem sameOutcome_format_block :
    (∀ c ∈ "\t".toList, isBlank c = true ∧ c ≠ '\n') ∧
      format "\t" "if a:\r\nprint b # c\n  end \n ~~" = "if a:\n\tprint b # c\nend\n~~" ∧
      SameOutcome
        (compile .default (format "\t" "if a:\r\nprint b # c\n  end \n ~~"))
        (compile .default "if a:\r\nprint b # c\n  end \n ~~") := by
  have hindent : ∀ c ∈ "\t".toList, isBlank c = true ∧ c ≠ '\n' := by
    intro c hc
    obtain rfl : c = '\t' := by simpa using hc
    exact ⟨by decide, by decide⟩
  exact ⟨hindent, by decide +kernel, sameOutcome_format .default _ "\t" hindent⟩

end LineScript
