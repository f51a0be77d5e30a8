import LineScript.Proofs.Format.Detached

/-!
# Formatting and comments

Scanning cuts a line at its comment.  Formatting does not: it looks at the first word and the last
character of the whole line.  So a source without its comments may be indented otherwise than with
them, and it is so exactly where a comment is not detached (`Format.IsDetached`).

Main statements: if all comments are detached, the source keeps its indentation without them; and a
comment that is not detached changes it, if its line stands between a header and another line
(`indentations_withoutComments`).

## Strategy

All that a line contributes to the indentation of a source is its aspect (`Format.Aspect`): its own
indentation, which counts in block comments, whether it is a marker of these, and its shape.  Lines
of the same aspects are indented alike, from the same level on and inside or outside of a block
comment alike (`map_indentation?_indentLines`, the invariant of the pass over the lines).  Taking a
detached comment away leaves the aspect of its line (`aspectOf_withoutComment`).

For the converse, the level of the line itself and the one it leaves tell its shape, but only where
there is a level to close: at level zero a terminator looks like any other line.  The header in
front makes sure of that (`Shape.eq_of_levels`).
-/

namespace LineScript

open Text

namespace Format

/-! ## Indentation -/

/-- The white space in front of a line, if there is anything else on it. -/
def indentation? (line : List Char) : Option (List Char) :=
  if hasText line then some (line.takeWhile isBlank) else none

/-- The indentations of the lines of a text, one by one. -/
def indentations (text : String) : List (Option (List Char)) :=
  (text.toList.splitOnP (· == '\n')).map indentation?

variable {line front back : List Char}

theorem hasText_append (htext : hasText front = true) (back : List Char) :
    hasText (front ++ back) = true := by
  obtain ⟨c, hlast, hblank⟩ := exists_getLast?_trim htext
  have hmem : c ∈ front := mem_of_mem_trim (List.mem_of_getLast? hlast)
  exact hasText_of_mem (List.mem_append_left back hmem) hblank

/-- What stands behind a text has no part in its indentation. -/
theorem takeWhile_append_of_hasText (htext : hasText front = true) (back : List Char) :
    (front ++ back).takeWhile isBlank = front.takeWhile isBlank := by
  rw [List.takeWhile_append]
  refine if_neg fun hlength => ?_
  -- else the text would be white space
  have hall : front.takeWhile isBlank = front :=
    (List.takeWhile_prefix isBlank).eq_of_length hlength
  obtain ⟨c, hlast, hblank⟩ := exists_getLast?_trim htext
  have hmem : c ∈ front.takeWhile isBlank := by
    rw [hall]
    exact mem_of_mem_trim (List.mem_of_getLast? hlast)
  rw [blank_takeWhile front c hmem] at hblank
  cases hblank

theorem indentation?_append (htext : hasText front = true) (back : List Char) :
    indentation? (front ++ back) = indentation? front := by
  rw [indentation?, indentation?, if_pos (hasText_append htext back), if_pos htext,
    takeWhile_append_of_hasText htext]

theorem indentation?_eq_none_iff : indentation? line = none ↔ trim line = [] := by
  simp [indentation?, hasText]

theorem indentation?_indented {indent : List Char} (hindent : Blank indent) (level : Nat)
    (htext : trim line ≠ []) :
    indentation? (indented indent level (trim line)) =
      some (List.replicate level indent).flatten := by
  obtain ⟨c, rest, htrim⟩ := List.exists_cons_of_ne_nil htext
  have hblank : isBlank c = false := isBlank_of_head?_trim (by rw [htrim]; rfl)
  have hline : hasText line = true := by simp [hasText, htext]
  rw [indentation?, if_pos (hasText_indented hline), indented, htrim,
    List.takeWhile_append_of_pos (blank_replicate hindent level),
    List.takeWhile_cons_of_neg (by simp [hblank]), List.append_nil]

/-! ## Aspects -/

/-- What formatting sees of a line. -/
structure Aspect where
  indentation? : Option (List Char)
  isMarker : Bool
  shape : Shape
  deriving DecidableEq

def aspectOf (line : List Char) : Aspect :=
  ⟨indentation? line, EachLine.isMarker line, shapeOf (trim line)⟩

theorem aspectOf_append_blank (hback : Blank back) (line : List Char) :
    aspectOf (line ++ back) = aspectOf line := by
  have htrim : trim (line ++ back) = trim line := trim_append_blank hback line
  have hindentation : indentation? (line ++ back) = indentation? line := by
    cases htext : hasText line with
    | true => exact indentation?_append htext back
    | false => rw [indentation?, indentation?, hasText, htrim, ← hasText, htext]; rfl
  rw [aspectOf, aspectOf, hindentation, EachLine.isMarker, htrim, EachLine.isMarker]

theorem aspectOf_dropReturn (piece : List Char) :
    aspectOf (Source.dropReturn piece) = aspectOf piece := by
  obtain ⟨ending, hblank, heq⟩ := Source.exists_eq_dropReturn piece
  rw [← aspectOf_append_blank hblank, ← heq]

/-- **The invariant.**  From the same level on, and in the same block comment or none, lines of the
same aspects are indented alike: they leave the same level and the same block comment. -/
theorem map_indentation?_indentLines {indent : List Char} (hindent : Blank indent) (level : Nat)
    (inComment : Bool) {lines lines' : List (List Char)}
    (haspects : lines.map aspectOf = lines'.map aspectOf) :
    (indentLines indent level inComment lines).map indentation? =
      (indentLines indent level inComment lines').map indentation? := by
  induction lines generalizing lines' level inComment with
  | nil =>
      rw [List.map_eq_nil_iff.mp haspects.symm]
  | cons line rest ih =>
      obtain ⟨line', rest', rfl, haspect, hrest⟩ := List.map_eq_cons_iff.mp haspects.symm
      simp only [aspectOf, Aspect.mk.injEq] at haspect
      obtain ⟨hindentation, hmarkers, hshape⟩ := haspect
      -- the cases of the pass over the lines; equal aspects lead into the same ones
      by_cases hempty : trim line = []
      · have hempty' : trim line' = [] := by
          rwa [← indentation?_eq_none_iff, hindentation, indentation?_eq_none_iff]
        rw [indentLines_blank hempty, indentLines_blank hempty', List.map_cons, List.map_cons,
          ih _ _ hrest.symm]
      have hempty' : trim line' ≠ [] := by
        rwa [ne_eq, ← indentation?_eq_none_iff, hindentation, indentation?_eq_none_iff]
      by_cases hmarker : trim line = "~~".toList
      · have hmarker' : trim line' = "~~".toList := by
          rwa [EachLine.isMarker, EachLine.isMarker, hmarker, BEq.rfl, beq_iff_eq] at hmarkers
        rw [indentLines_marker hmarker, indentLines_marker hmarker', List.map_cons, List.map_cons,
          ih _ _ hrest.symm]
      have hmarker' : trim line' ≠ "~~".toList := by
        rwa [EachLine.isMarker, EachLine.isMarker, beq_eq_false_iff_ne.mpr hmarker,
          beq_eq_false_iff_ne] at hmarkers
      cases inComment with
      | true =>
          rw [indentLines_comment hempty hmarker, indentLines_comment hempty' hmarker',
            List.map_cons, List.map_cons, hindentation, ih _ _ hrest.symm]
      | false =>
          rw [indentLines_code hempty hmarker, indentLines_code hempty' hmarker', List.map_cons,
            List.map_cons, indentation?_indented hindent _ hempty,
            indentation?_indented hindent _ hempty', hshape, ih _ _ hrest.symm]

/-- The indentations of a formatted source are those that its pieces get. -/
theorem indentations_format {indent source : String} (hne : indent ≠ "")
    (hindent : ∀ c ∈ indent.toList, isBlank c = true ∧ c ≠ '\n') :
    indentations (format indent source) =
      (indentLines indent.toList 0 false (source.toList.splitOnP (· == '\n'))).map
        indentation? := by
  have hblank : Blank indent.toList := fun c hc => (hindent c hc).1
  have hfeed : '\n' ∉ indent.toList := fun hmem => (hindent '\n' hmem).2 rfl
  have hempty : indent.toList.isEmpty = false := by simpa using hne
  obtain ⟨front, last, hsource⟩ := exists_splitOnP_eq_concat source.toList
  rw [indentations, splitOnP_format hfeed hsource, formatLines, hempty, if_neg Bool.false_ne_true,
    hsource]
  -- carriage returns in front of line feeds are dropped, which no aspect shows
  refine map_indentation?_indentLines hblank 0 false ?_
  rw [List.map_append, List.map_append, List.map_map]
  exact congrArg (· ++ _) (List.map_congr_left fun piece _ => aspectOf_dropReturn piece)

/-! ## Comments -/

/-- A line behind other pieces that has a comment behind words. -/
def IsCommented (before : List (List Char)) (piece : List Char) : Prop :=
  EachLine.IsRead before piece ∧ EachLine.beginsWithWord piece = true ∧ '#' ∈ trim piece

instance (before : List (List Char)) (piece : List Char) : Decidable (IsCommented before piece) :=
  inferInstanceAs (Decidable (_ ∧ _))

/-- The pieces with a comment behind words. -/
def commented (pieces : List (List Char)) : List (List Char) :=
  EachLine.collect (fun before piece => if IsCommented before piece then some piece else none)
    pieces

/-- A piece without its comment.  A carriage return belongs to the line break. -/
def withoutComment (piece : List Char) : List Char :=
  beforeComment piece ++ if piece.getLast? = some '\r' then ['\r'] else []

/-- Pieces without the comments behind words. -/
def uncommented (pieces : List (List Char)) : List (List Char) :=
  pieces.zipIdx.map fun line =>
    if IsCommented (pieces.take line.2) line.1 then withoutComment line.1 else line.1

/-- A source without the comments behind words. -/
def withoutComments (source : String) : String :=
  String.ofList (['\n'].intercalate (uncommented (source.toList.splitOnP (· == '\n'))))

/-- In front of a comment behind words there is a text. -/
theorem hasText_beforeComment (hbegins : EachLine.beginsWithWord line = true) :
    hasText (beforeComment line) = true := by
  have hwords : EachLine.words line ≠ [] := by
    rw [ne_eq, EachLine.words_eq_nil_iff, hbegins]
    exact Bool.noConfusion
  rw [EachLine.words, ← words_takeWhile_trim (by decide), ← words_trim] at hwords
  rw [hasText, Bool.not_eq_true', List.isEmpty_eq_false_iff]
  intro hempty
  rw [← beforeComment, hempty] at hwords
  exact hwords rfl

/-- What is left of a piece is the text in front of the comment, up to white space behind it. -/
theorem exists_eq_withoutComment (piece : List Char) :
    ∃ ending, Blank ending ∧ withoutComment piece = beforeComment piece ++ ending := by
  refine ⟨_, ?_, rfl⟩
  split
  · exact blank_singleton (by decide)
  · exact blank_nil

theorem trim_withoutComment (piece : List Char) :
    trim (withoutComment piece) = trim (beforeComment piece) := by
  obtain ⟨ending, hblank, heq⟩ := exists_eq_withoutComment piece
  rw [heq, trim_append_blank hblank]

/-- A detached comment leaves the aspect of a line as it is. -/
theorem aspectOf_withoutComment {before : List (List Char)} (hcommented : IsCommented before line)
    (hdetached : IsDetached line) : aspectOf (withoutComment line) = aspectOf line := by
  obtain ⟨hread, hbegins, hmark⟩ := hcommented
  obtain ⟨comment, hline⟩ := exists_eq_beforeComment_append (mem_of_mem_trim hmark)
  obtain ⟨ending, hblank, heq⟩ := exists_eq_withoutComment line
  -- the text in front of the comment has the indentation of the line
  have hindentation : indentation? (beforeComment line) = indentation? line := by
    conv_rhs => rw [hline, indentation?_append (hasText_beforeComment hbegins)]
  obtain ⟨hmarker, hshape⟩ := (isDetached_iff hbegins (mem_of_mem_trim hmark)).mp hdetached
  have hmarkers : EachLine.isMarker (beforeComment line) = EachLine.isMarker line := by
    rw [hread.1, EachLine.isMarker, beq_eq_false_iff_ne]
    exact hmarker
  rw [heq, aspectOf_append_blank hblank, aspectOf, aspectOf, hindentation, hmarkers, hshape]

theorem not_mem_withoutComment (hfeed : '\n' ∉ line) : '\n' ∉ withoutComment line := by
  rw [withoutComment, List.mem_append, not_or]
  constructor
  · exact fun hmem => hfeed ((List.takeWhile_subset _) hmem)
  · split <;> simp

theorem map_aspectOf_uncommented {pieces : List (List Char)}
    (hdetached : ∀ line ∈ commented pieces, IsDetached line) :
    (uncommented pieces).map aspectOf = pieces.map aspectOf := by
  conv_rhs => rw [← List.zipIdx_map_fst 0 pieces, List.map_map]
  rw [uncommented, List.map_map]
  refine List.map_congr_left fun line hline => ?_
  simp only [Function.comp_apply]
  split
  next hcommented =>
    have hmem : line.1 ∈ commented pieces :=
      List.mem_filterMap.mpr ⟨line, hline, if_pos hcommented⟩
    exact aspectOf_withoutComment hcommented (hdetached line.1 hmem)
  next => rfl

theorem splitOnP_withoutComments (source : String) :
    (withoutComments source).toList.splitOnP (· == '\n') =
      uncommented (source.toList.splitOnP (· == '\n')) := by
  have hne : uncommented (source.toList.splitOnP (· == '\n')) ≠ [] := by
    simp [uncommented, List.splitOnP_ne_nil]
  rw [withoutComments, String.toList_ofList]
  refine splitOnP_intercalate hne fun piece hpiece => ?_
  obtain ⟨line, hline, rfl⟩ := List.mem_map.mp hpiece
  have hfeed : '\n' ∉ line.1 := not_mem_of_mem_splitOnP (List.fst_mem_of_mem_zipIdx hline)
  split
  · exact not_mem_withoutComment hfeed
  · exact hfeed

/-! ## One line with a comment -/

/-- A header, a line and another line. -/
def between (line : List Char) : String :=
  String.ofList (['\n'].intercalate ["a:".toList, line, "b".toList])

theorem splitOnP_between (hfeed : '\n' ∉ line) :
    (between line).toList.splitOnP (· == '\n') = ["a:".toList, line, "b".toList] := by
  rw [between, String.toList_ofList]
  refine splitOnP_intercalate (List.cons_ne_nil _ _) ?_
  simp only [List.forall_mem_cons]
  exact ⟨by decide, hfeed, by decide, List.forall_mem_nil _⟩

/-- A line with a mark in it is no marker of block comments. -/
theorem trim_ne_marker_of_mem (hmark : '#' ∈ trim line) : trim line ≠ "~~".toList := by
  intro heq
  rw [heq] at hmark
  exact absurd hmark (by decide)

theorem uncommented_between (hbegins : EachLine.beginsWithWord line = true)
    (hmark : '#' ∈ trim line) :
    uncommented ["a:".toList, line, "b".toList] =
      ["a:".toList, withoutComment line, "b".toList] := by
  have hmarker : EachLine.isMarker line = false := by
    rw [EachLine.isMarker, beq_eq_false_iff_ne]
    exact trim_ne_marker_of_mem hmark
  -- the line stands in no block comment, since the header is no marker
  have hcommented : IsCommented ["a:".toList] line := ⟨⟨hmarker, by decide⟩, hbegins, hmark⟩
  have hheader : ¬ IsCommented [] "a:".toList := by decide
  have hlast : ¬ IsCommented ["a:".toList, line] "b".toList := fun hlast =>
    absurd hlast.2.2 (by decide)
  have hlines : uncommented ["a:".toList, line, "b".toList] =
      [if IsCommented [] "a:".toList then withoutComment "a:".toList else "a:".toList,
        if IsCommented ["a:".toList] line then withoutComment line else line,
        if IsCommented ["a:".toList, line] "b".toList then withoutComment "b".toList
          else "b".toList] := rfl
  rw [hlines, if_neg hheader, if_pos hcommented, if_neg hlast]

section Between

variable {indent : List Char} (hindent : Blank indent)
include hindent

/-- Between the two lines, a line shows its shape by the level that it has and the one it leaves. -/
theorem indentations_between (htext : trim line ≠ []) (hmarker : trim line ≠ "~~".toList) :
    (indentLines indent 0 false ["a:".toList, line, "b".toList]).map indentation? =
      [0, (shapeOf (trim line)).levelOf 1, (shapeOf (trim line)).levelAfter 1].map
        fun level => some (List.replicate level indent).flatten := by
  have hheader : shapeOf (trim "a:".toList) = .opens := by decide
  have hlast : shapeOf (trim "b".toList) = .plain := by decide
  rw [indentLines_code (by decide) (by decide), indentLines_code htext hmarker,
    indentLines_code (by decide) (by decide), hheader, hlast, indentLines]
  simp only [List.map_cons, List.map_nil]
  rw [indentation?_indented hindent _ (by decide), indentation?_indented hindent _ htext,
    indentation?_indented hindent _ (by decide)]
  rfl

/-- A marker of block comments is not indented. -/
theorem indentations_between_marker (hmarker : trim line = "~~".toList) :
    (indentLines indent 0 false ["a:".toList, line, "b".toList]).map indentation? =
      [some [], some [], some []] := by
  have hheader : shapeOf (trim "a:".toList) = .opens := by decide
  rw [indentLines_code (by decide) (by decide), indentLines_marker hmarker, Bool.not_false,
    indentLines_comment (by decide) (by decide), hheader, indentLines]
  have hown : indentation? "~~".toList = some [] := by decide
  have hlast : indentation? "b".toList = some [] := by decide
  simp only [List.map_cons, List.map_nil]
  rw [indentation?_indented hindent _ (by decide), hown, hlast]
  rfl

end Between

theorem Shape.eq_of_levels {shape shape' : Shape} (hown : shape.levelOf 1 = shape'.levelOf 1)
    (hafter : shape.levelAfter 1 = shape'.levelAfter 1) : shape = shape' := by
  cases shape <;> cases shape' <;>
    first | rfl | exact absurd hown (by decide) | exact absurd hafter (by decide)

/-- A comment behind a marker of block comments leaves a line that closes no level. -/
theorem closing?_seen_of_marker (hbegins : EachLine.beginsWithWord line = true)
    (hmark : '#' ∈ line) (hmarker : trim (beforeComment line) = "~~".toList) :
    closing? (seen line).content = none := by
  have hscanned : EachLine.words line = ["~~"] := by
    rw [words_beforeComment, ← words_trim, hmarker]
    decide
  -- the marker is the first word, or the comment is glued to it
  rcases words_cases hbegins hmark with ⟨-, word, more, -, hseen⟩ |
    ⟨-, earlier, last, comment, more, hlast, hseen⟩
  · have hne : (Ornaments.ofWords ["~~"]).content ≠ [] := by decide
    rw [seen, hseen, hscanned, Ornaments.content_ofWords_append hne, closing?_append hne]
    decide
  · rw [hscanned] at hlast
    obtain ⟨rfl, hword⟩ | ⟨-, hnil⟩ := List.singleton_eq_append_iff.mp hlast
    · obtain rfl : last = "~~" := (List.cons.inj hword).1
      have hmem : '#' ∈ (String.ofList ("~~".toList ++ '#' :: comment)).toList := by simp
      rw [seen, hseen]
      refine (closing?_append_cons rfl hmem more).resolve_right fun hpicture => ?_
      have hnone : Pictograph.isPicture '~' = false := by decide
      simp [isPictograph, Pictograph.isFace, hnone] at hpicture
    · cases hnil

/-- Between the two lines, a comment that is not detached shows. -/
theorem indentations_between_iff {indent : String} (hne : indent ≠ "")
    (hindent : ∀ c ∈ indent.toList, isBlank c = true ∧ c ≠ '\n') (hfeed : '\n' ∉ line)
    (hbegins : EachLine.beginsWithWord line = true) (hmark : '#' ∈ trim line) :
    indentations (format indent (withoutComments (between line))) =
      indentations (format indent (between line)) ↔ IsDetached line := by
  have hblank : Blank indent.toList := fun c hc => (hindent c hc).1
  have hnil : indent.toList ≠ [] := by simpa using hne
  have hmem : '#' ∈ line := mem_of_mem_trim hmark
  have htext : trim line ≠ [] := List.ne_nil_of_mem hmark
  have hinj (level level' : Nat) : (List.replicate level indent.toList).flatten =
      (List.replicate level' indent.toList).flatten ↔ level = level' := by
    have hindented : indented indent.toList level [] = indented indent.toList level' [] ↔ _ :=
      indented_inj hnil
    simpa [indented] using hindented
  rw [indentations_format hne hindent, indentations_format hne hindent, splitOnP_withoutComments,
    splitOnP_between hfeed, uncommented_between hbegins hmark,
    indentations_between hblank htext (trim_ne_marker_of_mem hmark)]
  by_cases hbefore : trim (beforeComment line) = "~~".toList
  · -- the line becomes a marker, which is not indented, but in front of its comment it was
    refine iff_of_false (fun heq => ?_) fun hdetached => hdetached.marker hbefore
    have hlevel : (shapeOf (trim line)).levelOf 1 = 1 := by
      rw [shapeOf_trim hbegins, closing?_seen_of_marker hbegins hmem hbefore, Option.getD_none]
      split <;> rfl
    rw [indentations_between_marker hblank ((trim_withoutComment line).trans hbefore),
      hlevel] at heq
    simp [hnil] at heq
  · have htext' : trim (beforeComment line) ≠ [] := by
      simpa [hasText] using hasText_beforeComment hbegins
    rw [indentations_between hblank (by rwa [trim_withoutComment]) (by rwa [trim_withoutComment]),
      trim_withoutComment, isDetached_iff hbegins hmem, and_iff_right hbefore]
    simp only [List.map_cons, List.map_nil, List.cons.injEq, Option.some.injEq, hinj, and_true,
      true_and]
    constructor
    · rintro ⟨hown, hafter⟩
      exact Shape.eq_of_levels hown hafter
    · intro hshape
      rw [hshape]
      exact ⟨rfl, rfl⟩

end Format

open Format

/-- **Formatting and comments.**  If its comments are detached, a source without them is indented as
the source itself.  No comment may be left out of this: between a header and another line, a line
keeps its own indentation and that of the line behind it exactly if its comment is detached. -/
theorem indentations_withoutComments {indent : String} (hne : indent ≠ "")
    (hindent : ∀ c ∈ indent.toList, isBlank c = true ∧ c ≠ '\n') :
    (∀ source : String,
      (∀ line ∈ commented (source.toList.splitOnP (· == '\n')), IsDetached line) →
        indentations (format indent (withoutComments source)) =
          indentations (format indent source)) ∧
    ∀ line : List Char, '\n' ∉ line → EachLine.beginsWithWord line = true → '#' ∈ trim line →
      (indentations (format indent (withoutComments (between line))) =
        indentations (format indent (between line)) ↔ IsDetached line) := by
  constructor
  · intro source hdetached
    have hblank : Blank indent.toList := fun c hc => (hindent c hc).1
    rw [indentations_format hne hindent, indentations_format hne hindent,
      splitOnP_withoutComments]
    refine map_indentation?_indentLines hblank 0 false ?_
    exact map_aspectOf_uncommented hdetached
  · intro line hfeed hbegins hmark
    exact indentations_between_iff hne hindent hfeed hbegins hmark

/-- Detached comments behind headers, a terminator, a state and a glued mark, and marks that are no
comments: one in a block comment and one in front of everything.  A terminator with a glued mark is
indented otherwise than without its comment. -/
theorem indentations_withoutComments_block :
    let source := "if a: # b:\n> # c\r\n~~\n x # y\n~~\nprint a#b\n # d:\nend # e:"
    "\t" ≠ "" ∧ (∀ c ∈ "\t".toList, isBlank c = true ∧ c ≠ '\n') ∧
      (∀ line ∈ commented (source.toList.splitOnP (· == '\n')), IsDetached line) ∧
      withoutComments source = "if a: \n> \r\n~~\n x # y\n~~\nprint a\n # d:\nend " ∧
      format "\t" source =
        "if a: # b:\n\t> # c\n~~\n x # y\n~~\n\tprint a#b\n\t# d:\nend # e:" ∧
      indentations (format "\t" (withoutComments source)) = indentations (format "\t" source) ∧
      between "end#c".toList = "a:\nend#c\nb" ∧ ¬ IsDetached "end#c".toList ∧
      indentations (format "\t" (withoutComments "a:\nend#c\nb")) ≠
        indentations (format "\t" "a:\nend#c\nb") := by
  intro source
  have hindent : ∀ c ∈ "\t".toList, isBlank c = true ∧ c ≠ '\n' := by
    intro c hc
    obtain rfl : c = '\t' := by simpa using hc
    exact ⟨by decide, by decide⟩
  have hdetached : ∀ line ∈ commented (source.toList.splitOnP (· == '\n')), IsDetached line := by
    decide +kernel
  obtain ⟨hsource, hline⟩ := indentations_withoutComments (by decide) hindent
  have hglued : ¬ IsDetached "end#c".toList := by decide +kernel
  have hbetween : between "end#c".toList = "a:\nend#c\nb" := by decide +kernel
  refine ⟨by decide, hindent, hdetached, by decide +kernel, by decide +kernel,
    hsource source hdetached, hbetween, hglued, ?_⟩
  rw [← hbetween]
  exact mt (hline _ (by decide) (by decide) (by decide)).mp hglued

/-- A terminator with a glued mark closes no level, and a colon in front of a comment opens none,
although scanning reads the lines without their comments. -/
theorem indentations_differ_of_comment :
    let source := "if true:\npass\nend#c\nprint 1"
    let source' := "if true: # c\npass\nend"
    "  " ≠ "" ∧ (∀ c ∈ "  ".toList, isBlank c = true ∧ c ≠ '\n') ∧
      EachLine.words "end#c".toList = ["end"] ∧
      withoutComments source = "if true:\npass\nend\nprint 1" ∧
      format "  " source = "if true:\n  pass\n  end#c\n  print 1" ∧
      format "  " (withoutComments source) = "if true:\n  pass\nend\nprint 1" ∧
      indentations (format "  " (withoutComments source)) ≠ indentations (format "  " source) ∧
      EachLine.words "if true: # c".toList = ["if", "true:"] ∧
      withoutComments source' = "if true: \npass\nend" ∧
      format "  " source' = "if true: # c\npass\nend" ∧
      format "  " (withoutComments source') = "if true:\n  pass\nend" ∧
      indentations (format "  " (withoutComments source')) ≠
        indentations (format "  " source') := by
  intro source source'
  have hindent : ∀ c ∈ "  ".toList, isBlank c = true ∧ c ≠ '\n' := by
    intro c hc
    obtain rfl : c = ' ' := by simpa using hc
    exact ⟨by decide, by decide⟩
  refine ⟨by decide, hindent, ?_⟩
  decide +kernel

end LineScript
