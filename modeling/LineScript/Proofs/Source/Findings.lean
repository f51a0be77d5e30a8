import Mathlib.Data.List.Forall2
import LineScript.Proofs.Source.Pieces
import LineScript.Token.Scan

/-!
# What scanning depends on

Scanning goes by the numbers of lines and by their words.  A span is copied, and so are the
ornaments in front of the first word: both are annotations of a finding, and the finding without
them is `bare`.  Main statement: sources on whose lines the scanner makes out the same
(`PieceAlike`) have the same bare findings (`findings_alike`).  Lines with the same words are alike
(`pieceAlike_of_words`), and empty lines at the end of a source contribute nothing
(`findingsOfLines_append_nils`).

Two runs are compared here, as they are wherever sources are shown to come to the same.  What they
share is which lines toggle a block comment: a line that is a marker in one source is a marker in
the other, so that both are inside of comments at the same time.  The comment itself is remembered
by the line of its marker, whose number is in the remark and whose span is not; so the two runs
carry lines that are alike, and not equal ones.
-/

namespace LineScript

open Text

/-! ## Forgetting annotations -/

/-- The token without its ornaments and its place among the bytes of the source. -/
def LineToken.bare (token : LineToken) : LineToken :=
  { token with state := .continued, pictograph := none, span := {} }

/-- The remark without its place among the bytes of the source. -/
def Diagnostic.withoutSpan (diagnostic : Diagnostic) : Diagnostic := { diagnostic with span := {} }

/-- The finding without its annotations. -/
def Finding.bare : Finding → Finding
  | .token found => .token found.bare
  | .diagnostic remark => .diagnostic remark.withoutSpan

theorem tokensOf_bare (findings : List Finding) :
    tokensOf (findings.map Finding.bare) = (tokensOf findings).map LineToken.bare := by
  induction findings with
  | nil => rfl
  | cons finding rest ih =>
      cases finding with
      | token token => exact congrArg (_ :: ·) ih
      | diagnostic diagnostic => exact ih

theorem diagnosticsOf_bare (findings : List Finding) :
    diagnosticsOf (findings.map Finding.bare) =
      (diagnosticsOf findings).map Diagnostic.withoutSpan := by
  induction findings with
  | nil => rfl
  | cons finding rest ih =>
      cases finding with
      | token token => exact ih
      | diagnostic diagnostic => exact congrArg (_ :: ·) ih

/-! ## Lines -/

namespace SourceLine

theorem isCommentMarker_iff {line : SourceLine} :
    line.isCommentMarker = true ↔ Text.words line.text = ["~~".toList] := by
  rw [isCommentMarker, beq_iff_eq]
  refine ⟨fun htrim => ?_, trim_eq_of_words_eq_singleton⟩
  rw [← words_trim, htrim]
  decide

theorem words_eq (line : SourceLine) :
    line.words = (wordsBefore '#' (Text.words line.text)).map String.ofList := by
  rw [SourceLine.words, code, words_takeWhile (by decide)]

theorem contains_mark_iff {line : SourceLine} :
    line.text.contains '#' = true ↔ ∃ word ∈ Text.words line.text, '#' ∈ word := by
  rw [List.contains_iff_mem, exists_mem_words_iff (by decide)]

/-- The scanner makes out the same on both lines: the same number, a marker on both or on none, the
same words besides ornaments, and a remark on a comment on both or on none. -/
structure Alike (line line' : SourceLine) : Prop where
  number : line.number = line'.number
  marker : line.isCommentMarker = line'.isCommentMarker
  content : (Ornaments.ofWords line.words).content = (Ornaments.ofWords line'.words).content
  remark : line.commentDiagnostic?.isSome = line'.commentDiagnostic?.isSome

variable {line line' : SourceLine}

theorem isSome_commentDiagnostic? (line : SourceLine) :
    line.commentDiagnostic?.isSome = (!line.words.isEmpty && line.text.contains '#') := by
  unfold commentDiagnostic?
  split
  next hremark => exact hremark.symm
  next hnone => exact (Bool.eq_false_iff.mpr hnone).symm

/-- The scanner makes out nothing but words. -/
theorem alike_of_words (hnumber : line.number = line'.number)
    (hwords : Text.words line.text = Text.words line'.text) : line.Alike line' := by
  have hcode : line.words = line'.words := by rw [words_eq, words_eq, hwords]
  refine ⟨hnumber, ?_, by rw [hcode], ?_⟩
  · rw [Bool.eq_iff_iff, isCommentMarker_iff, isCommentMarker_iff, hwords]
  · have hcontains : line.text.contains '#' = line'.text.contains '#' := by
      rw [Bool.eq_iff_iff, contains_mark_iff, contains_mark_iff, hwords]
    rw [isSome_commentDiagnostic?, isSome_commentDiagnostic?, hcode, hcontains]

theorem Alike.commentDiagnostic? (halike : line.Alike line') :
    line.commentDiagnostic?.map Diagnostic.withoutSpan =
      line'.commentDiagnostic?.map Diagnostic.withoutSpan := by
  have hremark := halike.remark
  rw [isSome_commentDiagnostic?, isSome_commentDiagnostic?] at hremark
  unfold SourceLine.commentDiagnostic?
  rw [halike.number, hremark]
  split <;> rfl

theorem Alike.token? (halike : line.Alike line') :
    line.token?.map LineToken.bare = line'.token?.map LineToken.bare := by
  unfold SourceLine.token?
  rw [halike.number]
  simp only
  rw [halike.content]
  split <;> rfl

theorem Alike.findings (halike : line.Alike line') :
    line.findings.map Finding.bare = line'.findings.map Finding.bare := by
  simp only [SourceLine.findings, List.map_append]
  congr 1
  · have hmap := congrArg (fun found => (found.map Finding.diagnostic).toList)
      halike.commentDiagnostic?
    simpa [Finding.bare, Option.map_map, Function.comp_def, Option.toList_map] using hmap
  · have hmap := congrArg (fun found => (found.map Finding.token).toList) halike.token?
    simpa [Finding.bare, Option.map_map, Function.comp_def, Option.toList_map] using hmap

theorem Alike.openCommentDiagnostic (halike : line.Alike line') :
    line.openCommentDiagnostic.withoutSpan = line'.openCommentDiagnostic.withoutSpan := by
  simp [SourceLine.openCommentDiagnostic, Diagnostic.withoutSpan, halike.number]

end SourceLine

theorem trim_dropReturn (piece : List Char) : trim (Source.dropReturn piece) = trim piece := by
  obtain ⟨ending, hblank, heq⟩ := Source.exists_eq_dropReturn piece
  rw [← trim_append_blank hblank, ← heq]

theorem words_dropReturn (piece : List Char) : words (Source.dropReturn piece) = words piece := by
  rw [← words_trim, trim_dropReturn, words_trim]

/-! ## Sources -/

/-- Lines that are alike have the same bare findings, in comments that are alike. -/
theorem findingsOfLines_alike {comment comment' : Option SourceLine}
    {lines lines' : List SourceLine}
    (hcomment : Option.Rel SourceLine.Alike comment comment')
    (hlines : List.Forall₂ SourceLine.Alike lines lines') :
    (findingsOfLines comment lines).map Finding.bare =
      (findingsOfLines comment' lines').map Finding.bare := by
  induction hlines generalizing comment comment' with
  | nil =>
      cases hcomment with
      | none => rfl
      | some halike => simp [findingsOfLines, Finding.bare, halike.openCommentDiagnostic]
  | cons halike hrest ih =>
      -- both lines toggle the comment, or both are inside of one, or both contribute
      have hisSome : comment.isSome = comment'.isSome := by cases hcomment <;> rfl
      unfold findingsOfLines
      rw [halike.marker, hisSome]
      split
      · refine ih ?_
        split
        · exact .none
        · exact .some halike
      · split
        · -- inside of a comment neither line is read
          exact ih hcomment
        · rw [List.map_append, List.map_append, halike.findings, ih .none]

/-- The scanner makes out the same on both pieces, wherever they stand. -/
def PieceAlike (piece piece' : List Char) : Prop :=
  ∀ number start start', SourceLine.Alike ⟨number, start, Source.dropReturn piece⟩
    ⟨number, start', Source.dropReturn piece'⟩

theorem pieceAlike_of_words {piece piece' : List Char} (hwords : words piece = words piece') :
    PieceAlike piece piece' :=
  fun _ _ _ => SourceLine.alike_of_words rfl (by rw [words_dropReturn, words_dropReturn, hwords])

theorem forall₂_linesFrom (number start start' : Nat) {pieces pieces' : List (List Char)}
    (hpieces : List.Forall₂ PieceAlike pieces pieces') :
    List.Forall₂ SourceLine.Alike (Source.linesFrom number start pieces)
      (Source.linesFrom number start' pieces') := by
  induction hpieces generalizing number start start' with
  | nil => exact .nil
  | cons hpiece hrest ih => exact .cons (hpiece _ _ _) (ih _ _ _)

/-- Empty pieces at the end contribute nothing. -/
theorem findingsOfLines_append_nils (comment : Option SourceLine) (number start : Nat)
    (pieces : List (List Char)) (count : Nat) :
    findingsOfLines comment
        (Source.linesFrom number start (pieces ++ List.replicate count [])) =
      findingsOfLines comment (Source.linesFrom number start pieces) := by
  induction pieces generalizing comment number start with
  | nil =>
      induction count generalizing number start with
      | zero => rfl
      | succ count ih =>
          -- an empty line is no marker and has no words
          have hrest := ih (number + 1) (start + byteLength [] + 1)
          cases comment with
          | none => exact hrest
          | some line => exact hrest
  | cons piece rest ih =>
      simp only [List.cons_append, Source.linesFrom, findingsOfLines]
      split
      · exact ih _ _ _
      · split
        · exact ih _ _ _
        · rw [ih]

/-- The findings of a source are those of all pieces between line feeds. -/
theorem findings_eq_findingsOfLines (source : String) :
    findings source =
      findingsOfLines none (Source.linesFrom 1 0 (source.toList.splitOnP (· == '\n'))) := by
  rw [findings, Source.lines, Source.pieces]
  split
  next hlast =>
    rw [← findingsOfLines_append_nils none 1 0 _ 1, List.replicate_one,
      List.dropLast_append_getLast? [] hlast]
  next => rfl

/-- Sources whose pieces are alike have the same bare findings. -/
theorem findings_alike {source source' : String}
    (hpieces : List.Forall₂ PieceAlike (source.toList.splitOnP (· == '\n'))
      (source'.toList.splitOnP (· == '\n'))) :
    (findings source).map Finding.bare = (findings source').map Finding.bare := by
  rw [findings_eq_findingsOfLines, findings_eq_findingsOfLines]
  exact findingsOfLines_alike .none (forall₂_linesFrom 1 0 0 hpieces)

end LineScript
