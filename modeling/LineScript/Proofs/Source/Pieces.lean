import LineScript.Proofs.Text.Words
import LineScript.Source.Line

/-!
# Pieces between line feeds

A text is cut at its line feeds, and put together again with line feeds between the pieces.  Main
statements: what stands behind a text that ends with a line feed has its own pieces
(`pieces_append`), and in front of a piece stand the lines before it (`exists_eq_linesText_append`).

There are two ways to think of line feeds, as separators and as ends of lines, and they differ at
the end of a text.  Cutting takes them for separators, so that a text with a line feed at its end
has an empty last piece.  `pieces` leaves that one out, and `linesText` puts a line feed behind
every line; texts of this form are complete (`IsComplete`), and cutting them gives their lines
again.  A carriage return in front of a line feed belongs to the piece, and is dropped from it in a
step of its own (`dropReturn`).
-/

namespace LineScript

theorem not_mem_of_mem_splitOnP {text piece : List Char}
    (hmem : piece ∈ text.splitOnP (· == '\n')) : '\n' ∉ piece := by
  intro hfeed
  have hseparates : ('\n' == '\n') = false :=
    (Text.mem_of_mem_splitOnP hmem hfeed).2
  cases hseparates

theorem intercalate_concat {front : List (List Char)} (hne : front ≠ []) (last : List Char) :
    ['\n'].intercalate (front ++ [last]) = ['\n'].intercalate front ++ '\n' :: last := by
  induction front with
  | nil => exact absurd rfl hne
  | cons first rest ih =>
      cases rest with
      | nil => simp [List.intercalate]
      | cons second rest =>
          have hrest := ih (List.cons_ne_nil second rest)
          simp only [List.cons_append] at hrest ⊢
          rw [List.intercalate_cons_cons, List.intercalate_cons_cons, hrest]
          simp

theorem splitOnP_intercalate {lines : List (List Char)} (hne : lines ≠ [])
    (hlines : ∀ line ∈ lines, '\n' ∉ line) :
    (['\n'].intercalate lines).splitOnP (· == '\n') = lines :=
  List.splitOn_intercalate '\n' hlines hne

theorem intercalate_splitOnP (text : List Char) :
    ['\n'].intercalate (text.splitOnP (· == '\n')) = text :=
  List.intercalate_splitOn '\n'

/-- Two texts with a line feed between them have the pieces of both. -/
theorem splitOnP_append_lineFeed (front back : List Char) :
    (front ++ '\n' :: back).splitOnP (· == '\n') =
      front.splitOnP (· == '\n') ++ back.splitOnP (· == '\n') :=
  List.splitOnP_append_cons front back rfl

theorem splitOnP_of_not_mem {line : List Char} (hfeed : '\n' ∉ line) :
    line.splitOnP (· == '\n') = [line] := by
  refine List.splitOnP_eq_singleton fun c hc => beq_eq_false_iff_ne.mpr ?_
  rintro rfl
  exact hfeed hc

theorem exists_splitOnP_eq_concat (text : List Char) :
    ∃ front last, text.splitOnP (· == '\n') = front ++ [last] :=
  have hne := List.splitOnP_ne_nil (· == '\n') text
  ⟨_, _, (List.dropLast_append_getLast hne).symm⟩

namespace Source

theorem pieces_append_lineFeed (front back : List Char) :
    pieces (front ++ '\n' :: back) = front.splitOnP (· == '\n') ++ pieces back := by
  have hne : back.splitOnP (· == '\n') ≠ [] := List.splitOnP_ne_nil _ back
  rw [pieces, pieces, splitOnP_append_lineFeed, List.getLast?_append_of_ne_nil _ hne]
  split
  · exact List.dropLast_append_of_ne_nil hne
  · rfl

theorem pieces_of_not_mem {line : List Char} (hne : line ≠ []) (hfeed : '\n' ∉ line) :
    pieces line = [line] := by
  rw [pieces, splitOnP_of_not_mem hfeed]
  exact if_neg fun hlast => hne (Option.some.inj hlast)

/-- A text that lines can be added to: it is empty or ends with a line feed. -/
def IsComplete (text : List Char) : Prop := text = [] ∨ ∃ front, text = front ++ ['\n']

/-- What stands behind complete lines has its own pieces. -/
theorem pieces_append {text : List Char} (htext : IsComplete text) (rest : List Char) :
    pieces (text ++ rest) = pieces text ++ pieces rest := by
  obtain rfl | ⟨front, rfl⟩ := htext
  · rfl
  · rw [List.append_assoc, List.singleton_append, pieces_append_lineFeed, pieces_append_lineFeed,
      List.append_assoc]
    rfl

/-- The pieces are all that a text is cut into, but for an empty last one. -/
theorem exists_splitOnP_eq (text : List Char) :
    ∃ tail, text.splitOnP (· == '\n') = pieces text ++ tail ∧ (tail = [] ∨ tail = [[]]) := by
  unfold pieces
  simp only
  split
  next hlast => exact ⟨[[]], (List.dropLast_append_getLast? [] hlast).symm, .inr rfl⟩
  next => exact ⟨[], (List.append_nil _).symm, .inl rfl⟩

theorem not_mem_of_mem_pieces {text piece : List Char} (hmem : piece ∈ pieces text) :
    '\n' ∉ piece := by
  obtain ⟨tail, hsplit, -⟩ := exists_splitOnP_eq text
  have hall : piece ∈ text.splitOnP (· == '\n') := by
    rw [hsplit]
    exact List.mem_append_left tail hmem
  exact not_mem_of_mem_splitOnP hall

/-- A line feed and more text behind a text add pieces behind those of the text. -/
theorem exists_pieces_append_lineFeed (text rest : List Char) :
    ∃ more, pieces (text ++ '\n' :: rest) = pieces text ++ more := by
  obtain ⟨tail, hsplit, -⟩ := exists_splitOnP_eq text
  exact ⟨tail ++ pieces rest, by rw [pieces_append_lineFeed, hsplit, List.append_assoc]⟩

/-! ## Complete lines -/

/-- The text of lines, each with a line feed behind it. -/
def linesText (lines : List (List Char)) : List Char := lines.flatMap (· ++ ['\n'])

theorem isComplete_linesText (lines : List (List Char)) : IsComplete (linesText lines) := by
  rcases List.eq_nil_or_concat lines with rfl | ⟨front, last, rfl⟩
  · exact .inl rfl
  · exact .inr ⟨linesText front ++ last, by simp [linesText]⟩

theorem pieces_linesText {lines : List (List Char)} (hlines : ∀ line ∈ lines, '\n' ∉ line) :
    pieces (linesText lines) = lines := by
  induction lines with
  | nil => rfl
  | cons line rest ih =>
      obtain ⟨hline, hrest⟩ := List.forall_mem_cons.mp hlines
      have hcons : linesText (line :: rest) = line ++ '\n' :: linesText rest := by
        simp [linesText]
      rw [hcons, pieces_append_lineFeed, splitOnP_of_not_mem hline, ih hrest,
        List.singleton_append]

theorem intercalate_append_cons (before : List (List Char)) (piece : List Char)
    (after : List (List Char)) :
    ['\n'].intercalate (before ++ piece :: after) =
      linesText before ++ ['\n'].intercalate (piece :: after) := by
  induction before with
  | nil => rfl
  | cons first before ih =>
      obtain ⟨next, rest, hcons⟩ := List.exists_cons_of_ne_nil
        (List.append_ne_nil_of_right_ne_nil before (List.cons_ne_nil piece after))
      rw [List.cons_append, hcons, List.intercalate_cons_cons, ← hcons, ih]
      simp [linesText]

/-- A piece stands behind the lines before it. -/
theorem exists_eq_linesText_append {text piece : List Char} {before after : List (List Char)}
    (hpieces : pieces text = before ++ piece :: after) :
    ∃ back, text = linesText before ++ piece ++ back := by
  obtain ⟨tail, hsplit, -⟩ := exists_splitOnP_eq text
  have htext := intercalate_splitOnP text
  rw [hsplit, hpieces, List.append_assoc, List.cons_append, intercalate_append_cons] at htext
  cases hbehind : after ++ tail with
  | nil => exact ⟨[], by simpa [hbehind] using htext.symm⟩
  | cons next others =>
      rw [hbehind, List.intercalate_cons_cons] at htext
      exact ⟨'\n' :: ['\n'].intercalate (next :: others), by simpa using htext.symm⟩

/-- Behind every piece of a text but the last one comes a line feed. -/
theorem infix_of_mem_splitOnP {text last : List Char} {front : List (List Char)}
    (htext : text.splitOnP (· == '\n') = front ++ [last]) {piece : List Char}
    (hpiece : piece ∈ front) : piece ++ ['\n'] <:+: text := by
  obtain ⟨before, after, rfl⟩ := List.append_of_mem hpiece
  obtain ⟨next, rest, hbehind⟩ := List.exists_cons_of_ne_nil (List.concat_ne_nil last after)
  have hsplit : text.splitOnP (· == '\n') = before ++ piece :: next :: rest := by
    rw [htext, List.append_assoc, List.cons_append, hbehind]
  refine ⟨linesText before, ['\n'].intercalate (next :: rest), ?_⟩
  rw [← intercalate_splitOnP text, hsplit, intercalate_append_cons, List.intercalate_cons_cons]
  simp

/-! ## Returns -/

/-- What is dropped is white space. -/
theorem exists_eq_dropReturn (piece : List Char) :
    ∃ ending, Text.Blank ending ∧ piece = dropReturn piece ++ ending := by
  unfold dropReturn
  split
  next hreturn =>
    have hblank : Text.Blank ['\r'] := Text.blank_singleton (by decide)
    exact ⟨['\r'], hblank, (List.dropLast_append_getLast? '\r' hreturn).symm⟩
  next => exact ⟨[], Text.blank_nil, by rw [List.append_nil]⟩

theorem not_mem_dropReturn {c : Char} {piece : List Char} (hpiece : c ∉ piece) :
    c ∉ dropReturn piece := by
  obtain ⟨ending, -, heq⟩ := exists_eq_dropReturn piece
  intro hmem
  rw [heq] at hpiece
  exact hpiece (List.mem_append_left ending hmem)

theorem dropReturn_eq_self_iff {piece : List Char} :
    dropReturn piece = piece ↔ piece.getLast? ≠ some '\r' := by
  refine ⟨fun heq hlast => ?_, fun hlast => if_neg hlast⟩
  rw [dropReturn, if_pos hlast] at heq
  have hne : piece ≠ [] := by
    rintro rfl
    cases hlast
  have hlength := List.length_pos_iff.mpr hne
  have hdrop := congrArg List.length heq
  rw [List.length_dropLast] at hdrop
  omega

/-- One carriage return is all that there is to drop at the end of a piece, unless there are two. -/
theorem dropReturn_dropReturn {piece : List Char} (hreturns : ¬ ['\r', '\r'] <:+ piece) :
    dropReturn (dropReturn piece) = dropReturn piece := by
  rw [dropReturn_eq_self_iff]
  intro hlast
  refine hreturns ?_
  unfold dropReturn at hlast
  split at hlast
  next hreturn =>
    have hpiece : piece.dropLast ++ ['\r'] = piece := List.dropLast_append_getLast? '\r' hreturn
    -- a second carriage return would be left behind the first
    have hfront : piece.dropLast.dropLast ++ ['\r'] = piece.dropLast :=
      List.dropLast_append_getLast? '\r' hlast
    refine ⟨piece.dropLast.dropLast, ?_⟩
    calc piece.dropLast.dropLast ++ ['\r', '\r']
        = (piece.dropLast.dropLast ++ ['\r']) ++ ['\r'] := by simp
      _ = piece := by rw [hfront, hpiece]
  next hreturn => exact absurd hlast hreturn

theorem map_dropReturn_eq_self {pieces : List (List Char)}
    (hpieces : ∀ piece ∈ pieces, dropReturn piece = piece) : pieces.map dropReturn = pieces :=
  calc pieces.map dropReturn
      = pieces.map id := List.map_congr_left hpieces
    _ = pieces := List.map_id pieces

end Source

end LineScript
