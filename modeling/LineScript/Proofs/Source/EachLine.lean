import LineScript.Proofs.Source.Findings
import LineScript.Proofs.Source.Pieces
import Mathlib.Algebra.Group.Nat.Even
import Mathlib.Data.List.TakeWhile

/-!
# Line by line

Scanning carries a state along: the number and the offset of the next line, and the marker of the
block comment that the line may be in.  What it finds on a line can be said without a state, by the
pieces before the line and the line itself.  A line is read if the number of markers before it is
even and it is none.  Its number and its offset are sums over the pieces before it.

Main statement: the tokens and remarks of a source are those of its lines, one by one, and one
remark on the last marker if their number is odd; the span of a line is where its text stands in the
source, and lines have spans one behind the other (`findings_eachLine`).

## Strategy

The invariant is `CommentBehind`: behind some pieces the scanner is outside of block comments, or in
the one that their last marker opened.  Parity follows from it, since each marker turns the one into
the other (`CommentBehind.even_iff`).  `findingsOfLines_linesFrom` compares a run of the scanner
from any such point with what the remaining lines contribute, and ends with the invariant for all
pieces, from which the remark on a comment that is not closed is read off
(`openCommentDiagnostic_cases`).

A contribution is found for a line and the pieces before it, and collected over all lines
(`collect`).  Of a list that is collected like this it is known which line an item comes from
(`exists_piece_of_collect_eq`), and that is how later files go back from tokens and remarks to the
source.
-/

namespace LineScript

open Text

/-- The span is where a text stands in a source, between two of its characters. -/
def Span.Covers (span : Span) (source text : List Char) : Prop :=
  ∃ front back, source = front ++ text ++ back ∧ span.start = byteLength front ∧
    span.stop = byteLength (front ++ text)

namespace EachLine

/-! ## What is on a line -/

/-- A marker of block comments. -/
def isMarker (piece : List Char) : Bool := trim piece == "~~".toList

/-- The byte offset behind pieces and the line feeds that end them. -/
def offsetBehind : List (List Char) → Nat
  | [] => 0
  | piece :: rest => byteLength piece + 1 + offsetBehind rest

/-- The bytes of the line that a piece is, behind other pieces. -/
def span (before : List (List Char)) (piece : List Char) : Span :=
  ⟨offsetBehind before, offsetBehind before + byteLength (Source.dropReturn piece)⟩

/-- A line behind other pieces is read: it is no marker, and stands outside of block comments. -/
def IsRead (before : List (List Char)) (piece : List Char) : Prop :=
  isMarker piece = false ∧ Even (before.countP isMarker)

instance (before : List (List Char)) (piece : List Char) : Decidable (IsRead before piece) :=
  inferInstanceAs (Decidable (_ ∧ _))

/-- The trimmed text is not empty, and not all a comment. -/
def beginsWithWord (piece : List Char) : Bool := (trim piece).head?.any (· != '#')

/-- The words in front of a comment. -/
def words (piece : List Char) : List String :=
  (Text.words ((trim piece).takeWhile (· != '#'))).map String.ofList

/-- The state that words begin with. -/
def state? (words : List String) : Option LineState := words.head?.bind LineState.ofGlyph?

/-- Words without a state in front of them. -/
def behindState (words : List String) : List String :=
  if (state? words).isSome then words.tail else words

/-- The pictograph that words begin with. -/
def pictograph? (words : List String) : Option String := words.head?.filter isPictograph

/-- Words without a pictograph in front of them. -/
def behindPictograph (words : List String) : List String :=
  if (pictograph? words).isSome then words.tail else words

/-- The token of a line behind other pieces. -/
def token? (before : List (List Char)) (piece : List Char) : Option LineToken :=
  let words := words piece
  let content := behindPictograph (behindState words)
  if IsRead before piece ∧ beginsWithWord piece = true then
    match content with
    | [] => none
    | action :: args =>
        some ⟨action, args, (state? words).getD .continued, pictograph? (behindState words),
          before.length + 1, span before piece⟩
  else
    none

/-- The remark on a comment behind words, from its mark on. -/
def remark? (before : List (List Char)) (piece : List Char) : Option Diagnostic :=
  if IsRead before piece ∧ beginsWithWord piece = true ∧ '#' ∈ trim piece then
    some ⟨"inline comments are not supported (ignored)", before.length + 1,
      ⟨offsetBehind before + byteLength ((Source.dropReturn piece).takeWhile (· != '#')),
        (span before piece).stop⟩⟩
  else
    none

/-! ## Lines of their own -/

theorem ofWords_eq (words : List String) :
    Ornaments.ofWords words =
      ⟨(state? words).getD .continued, pictograph? (behindState words),
        behindPictograph (behindState words)⟩ := by
  -- behind the state a pictograph may follow
  have hwithState (state : LineState) (rest : List String) :
      Ornaments.withState state rest = ⟨state, pictograph? rest, behindPictograph rest⟩ := by
    cases rest with
    | nil => rfl
    | cons word rest =>
        by_cases hpictograph : isPictograph word = true <;>
          simp [Ornaments.withState, pictograph?, behindPictograph, Option.filter, hpictograph]
  cases words with
  | nil => rfl
  | cons word rest =>
      rw [Ornaments.ofWords]
      cases hglyph : LineState.ofGlyph? word with
      | none => simp [hwithState, state?, behindState, hglyph]
      | some state => simp [hwithState, state?, behindState, hglyph]

/-- A line has words exactly if its trimmed text begins with one. -/
theorem words_eq_nil_iff (piece : List Char) : words piece = [] ↔ beginsWithWord piece = false := by
  rw [words, List.map_eq_nil_iff, beginsWithWord]
  cases htrim : trim piece with
  | nil => simp
  | cons c rest =>
      have hblank : isBlank c = false := isBlank_of_head?_trim (by rw [htrim]; rfl)
      by_cases hmark : c = '#'
      · simp [hmark]
      · have hne : (c != '#') = true := bne_iff_ne.mpr hmark
        simp [hne, words_cons_ne_nil hblank]

variable {before : List (List Char)} {piece : List Char}

/-- A marker of block comments is a word of its own. -/
theorem isMarker_eq_false_of_mem_words {word : String} (hmem : word ∈ words piece)
    (hne : word ≠ "~~") : isMarker piece = false := by
  by_contra hmarker
  rw [Bool.not_eq_false, isMarker, beq_iff_eq] at hmarker
  have hwords : words piece = ["~~"] := by
    rw [words, hmarker]
    decide
  rw [hwords, List.mem_singleton] at hmem
  exact hne hmem

/-- Without a mark no word is in a comment. -/
theorem words_of_not_mem (hmark : '#' ∉ piece) :
    words piece = (Text.words piece).map String.ofList := by
  have hcode : piece.takeWhile (· != '#') = piece := by
    refine List.takeWhile_eq_self_iff.mpr fun c hc => bne_iff_ne.mpr ?_
    rintro rfl
    exact hmark hc
  rw [words, ← Text.words_takeWhile_trim (by decide), hcode]

/-- The line that a piece is, behind other pieces. -/
def lineOf (before : List (List Char)) (piece : List Char) : SourceLine :=
  ⟨before.length + 1, offsetBehind before, Source.dropReturn piece⟩

theorem isCommentMarker_lineOf : (lineOf before piece).isCommentMarker = isMarker piece := by
  rw [SourceLine.isCommentMarker, lineOf, trim_dropReturn, isMarker]

theorem words_lineOf : (lineOf before piece).words = words piece := by
  have hmark : isBlank '#' = false := by decide
  rw [SourceLine.words, SourceLine.code, lineOf, words_takeWhile_trim hmark, trim_dropReturn, words]

theorem contains_lineOf : (lineOf before piece).text.contains '#' = (trim piece).contains '#' := by
  have hmark : isBlank '#' = false := by decide
  rw [← contains_trim hmark, lineOf, trim_dropReturn]

/-- What is found on a line behind other pieces. -/
def findingsOf (before : List (List Char)) (piece : List Char) : List Finding :=
  ((remark? before piece).map .diagnostic).toList ++ ((token? before piece).map .token).toList

theorem token?_lineOf (hread : IsRead before piece) :
    (lineOf before piece).token? = token? before piece := by
  rw [SourceLine.token?, words_lineOf, ofWords_eq, token?]
  cases hbegins : beginsWithWord piece with
  | false =>
      rw [(words_eq_nil_iff piece).mpr hbegins]
      simp [state?, behindState, pictograph?, behindPictograph]
  | true =>
      simp only [hread, and_self, if_true]
      rfl

/-- On a line that is read the scanner finds what is on it. -/
theorem findings_lineOf (hread : IsRead before piece) :
    (lineOf before piece).findings = findingsOf before piece := by
  have hremark : (lineOf before piece).commentDiagnostic? = remark? before piece := by
    rw [SourceLine.commentDiagnostic?, words_lineOf, contains_lineOf, remark?]
    cases hbegins : beginsWithWord piece with
    | false => simp [(words_eq_nil_iff piece).mpr hbegins]
    | true =>
        have hwords : (words piece).isEmpty = false := by
          rw [List.isEmpty_eq_false_iff, ne_eq, words_eq_nil_iff, hbegins]
          exact Bool.noConfusion
        simp [hread, hwords]
        rfl
  rw [SourceLine.findings, hremark, token?_lineOf hread, findingsOf]

theorem findingsOf_of_not_read (hread : ¬ IsRead before piece) : findingsOf before piece = [] := by
  simp [findingsOf, remark?, token?, hread]

/-! ## All lines -/

theorem offsetBehind_append (front back : List (List Char)) :
    offsetBehind (front ++ back) = offsetBehind front + offsetBehind back := by
  induction front with
  | nil => rw [List.nil_append, offsetBehind, Nat.zero_add]
  | cons piece rest ih =>
      rw [List.cons_append, offsetBehind, offsetBehind, ih]
      omega

theorem offsetBehind_concat (before : List (List Char)) (piece : List Char) :
    offsetBehind (before ++ [piece]) = offsetBehind before + byteLength piece + 1 := by
  rw [offsetBehind_append, Nat.add_assoc]
  rfl

/-- The block comment that pieces end in, if they end in one: an even number of markers is closed,
and an odd number leaves the last of them open. -/
inductive CommentBehind : Option SourceLine → List (List Char) → Prop
  | outside {before : List (List Char)} (heven : Even (before.countP isMarker)) :
      CommentBehind none before
  | inside {front inner : List (List Char)} {marker : List Char}
      (heven : Even (front.countP isMarker)) (hmarker : isMarker marker = true)
      (hinner : ∀ piece ∈ inner, isMarker piece = false) :
      CommentBehind (some (lineOf front marker)) (front ++ marker :: inner)

namespace CommentBehind

variable {comment : Option SourceLine}

theorem countP_inside {front inner : List (List Char)} {marker : List Char}
    (hmarker : isMarker marker = true) (hinner : ∀ piece ∈ inner, isMarker piece = false) :
    (front ++ marker :: inner).countP isMarker = front.countP isMarker + 1 := by
  have hnone : inner.countP isMarker = 0 :=
    List.countP_eq_zero.mpr fun piece hpiece => by simp [hinner piece hpiece]
  rw [List.countP_append, List.countP_cons_of_pos hmarker, hnone]

theorem even_iff (hcomment : CommentBehind comment before) :
    Even (before.countP isMarker) ↔ comment = none := by
  cases hcomment with
  | outside heven => exact iff_of_true heven rfl
  | inside heven hmarker hinner =>
      rw [countP_inside hmarker hinner, Nat.even_add_one]
      exact iff_of_false (not_not_intro heven) (Option.some_ne_none _)

/-- A marker opens a comment or closes the one that it is in. -/
theorem concat_marker (hcomment : CommentBehind comment before) (hmarker : isMarker piece = true) :
    CommentBehind (if comment.isSome then none else some (lineOf before piece))
      (before ++ [piece]) := by
  have hcount : (before ++ [piece]).countP isMarker = before.countP isMarker + 1 := by
    rw [List.countP_append, List.countP_singleton, if_pos hmarker]
  cases hcomment with
  | outside heven => exact .inside heven hmarker (by simp)
  | inside heven hopen hinner =>
      refine .outside ?_
      rw [hcount, countP_inside hopen hinner]
      exact (Nat.even_add_one.mpr (Nat.even_add_one.not.mpr (not_not_intro heven)))

/-- Other lines leave a comment as it is. -/
theorem concat_other (hcomment : CommentBehind comment before) (hother : isMarker piece = false) :
    CommentBehind comment (before ++ [piece]) := by
  cases hcomment with
  | outside heven =>
      refine .outside ?_
      rwa [List.countP_append, List.countP_singleton, hother, if_neg Bool.false_ne_true]
  | inside heven hmarker hinner =>
      rw [List.append_assoc, List.cons_append]
      refine .inside heven hmarker ?_
      simpa [or_imp, forall_and] using ⟨hinner, hother⟩

/-- What is remarked on a comment that is still open: its marker is the last one. -/
theorem openCommentDiagnostic_cases {pieces : List (List Char)}
    (hcomment : CommentBehind comment pieces) :
    let closing := (comment.map (·.openCommentDiagnostic)).toList
    Even (pieces.countP isMarker) ∧ closing = [] ∨
      ¬ Even (pieces.countP isMarker) ∧ ∃ front marker inner, pieces = front ++ marker :: inner ∧
        isMarker marker = true ∧ (∀ piece ∈ inner, isMarker piece = false) ∧
        closing = [⟨"unclosed block comment (~~)", front.length + 1, span front marker⟩] := by
  intro closing
  cases hcomment with
  | outside heven => exact .inl ⟨heven, rfl⟩
  | inside heven hmarker hinner =>
      refine .inr ⟨?_, _, _, _, rfl, hmarker, hinner, rfl⟩
      rw [countP_inside hmarker hinner, Nat.even_add_one]
      exact not_not_intro heven

end CommentBehind

/-- The findings of lines are those of each of them, and then the remark on a comment that is still
open. -/
theorem findingsOfLines_linesFrom {comment : Option SourceLine} (rest : List (List Char))
    (hcomment : CommentBehind comment before) :
    ∃ last, CommentBehind last (before ++ rest) ∧
      findingsOfLines comment
          (Source.linesFrom (before.length + 1) (offsetBehind before) rest) =
        ((rest.zipIdx before.length).flatMap fun line =>
            findingsOf ((before ++ rest).take line.2) line.1) ++
          (last.map fun line => .diagnostic line.openCommentDiagnostic).toList := by
  induction rest generalizing before comment with
  | nil => exact ⟨comment, by rwa [List.append_nil], rfl⟩
  | cons piece rest ih =>
      have hlines : Source.linesFrom (before.length + 1) (offsetBehind before) (piece :: rest) =
          lineOf before piece ::
            Source.linesFrom ((before ++ [piece]).length + 1) (offsetBehind (before ++ [piece]))
              rest := by
        rw [Source.linesFrom, offsetBehind_concat, List.length_append]
        rfl
      -- the first line joins the pieces before the rest
      have hall : before ++ piece :: rest = (before ++ [piece]) ++ rest := by
        rw [List.append_assoc, List.singleton_append]
      have hlength : (before ++ [piece]).length = before.length + 1 := by
        rw [List.length_append, List.length_singleton]
      rw [hlines, List.zipIdx_cons, List.flatMap_cons, List.take_left, findingsOfLines,
        isCommentMarker_lineOf, hall, ← hlength]
      cases hmarker : isMarker piece with
      | true =>
          obtain ⟨last, hlast, hfound⟩ := ih (hcomment.concat_marker hmarker)
          have hread : ¬ IsRead before piece := fun hread => by
            cases hmarker.symm.trans hread.1
          refine ⟨last, hlast, ?_⟩
          rw [findingsOf_of_not_read hread, List.nil_append, ← hfound]
          rfl
      | false =>
          obtain ⟨last, hlast, hfound⟩ := ih (hcomment.concat_other hmarker)
          refine ⟨last, hlast, ?_⟩
          cases comment with
          | none =>
              -- outside of comments: the markers before the line are even in number
              have hread : IsRead before piece := ⟨hmarker, hcomment.even_iff.mpr rfl⟩
              rw [List.append_assoc, ← hfound, ← findings_lineOf hread]
              rfl
          | some line =>
              have hread : ¬ IsRead before piece := fun hread => by
                cases hcomment.even_iff.mp hread.2
              rw [findingsOf_of_not_read hread, List.nil_append, ← hfound]
              rfl

/-- What lines contribute, each with the pieces before it. -/
def collect {α : Type} (contribution? : List (List Char) → List Char → Option α)
    (pieces : List (List Char)) : List α :=
  pieces.zipIdx.filterMap fun line => contribution? (pieces.take line.2) line.1

/-- Pieces that come behind others leave what those contribute as it is. -/
theorem collect_append {α : Type} (contribution? : List (List Char) → List Char → Option α)
    (before after : List (List Char)) :
    collect contribution? (before ++ after) =
      collect contribution? before ++
        collect (fun inner => contribution? (before ++ inner)) after := by
  rw [collect, List.zipIdx_append, List.filterMap_append]
  congr 1
  · refine List.filterMap_congr fun line hline => ?_
    -- what stands before a line of the front is all in the front
    have hlt := List.snd_lt_of_mem_zipIdx hline
    rw [Nat.add_zero] at hlt
    rw [List.take_append_of_le_length (Nat.le_of_lt hlt)]
  · rw [List.zipIdx_eq_map_add, List.filterMap_map, Nat.zero_add]
    refine List.filterMap_congr fun line _ => ?_
    rw [Function.comp_apply, List.take_length_add_append]

theorem collect_cons {α : Type} (contribution? : List (List Char) → List Char → Option α)
    (piece : List Char) (after : List (List Char)) :
    collect contribution? (piece :: after) =
      (contribution? [] piece).toList ++
        collect (fun inner => contribution? (piece :: inner)) after := by
  have hpiece : collect contribution? [piece] = (contribution? [] piece).toList := by
    cases hpiece : contribution? [] piece <;> simp [collect, hpiece]
  rw [← hpiece]
  exact collect_append contribution? [piece] after

/-- What a piece contributes comes behind what the pieces before it do, and is the last if it is the
last piece. -/
theorem exists_collect_append {α : Type}
    {contribution? : List (List Char) → List Char → Option α} {a : α}
    (hpiece : contribution? before piece = some a) (after : List (List Char)) :
    ∃ later, (after = [] → later = []) ∧
      collect contribution? (before ++ piece :: after) =
        collect contribution? before ++ a :: later := by
  refine ⟨collect (fun inner => contribution? (before ++ piece :: inner)) after, ?_, ?_⟩
  · rintro rfl
    rfl
  · rw [collect_append, collect_cons, List.append_nil, hpiece]
    rfl

/-- Every contribution comes from a piece, and those before it from the pieces before that one. -/
theorem exists_piece_of_collect_eq {α : Type}
    {contribution? : List (List Char) → List Char → Option α} {pieces : List (List Char)}
    {front back : List α} {a : α} (hcollect : collect contribution? pieces = front ++ a :: back) :
    ∃ before piece after, pieces = before ++ piece :: after ∧
      collect contribution? before = front ∧ contribution? before piece = some a := by
  induction pieces generalizing contribution? front with
  | nil => exact absurd hcollect.symm (List.append_ne_nil_of_right_ne_nil front (by simp))
  | cons first rest ih =>
      rw [collect_cons] at hcollect
      cases hfirst : contribution? [] first with
      | none =>
          rw [hfirst, Option.toList_none, List.nil_append] at hcollect
          -- the first piece contributes nothing
          obtain ⟨before, piece, after, rfl, hbefore, hpiece⟩ := ih hcollect
          refine ⟨first :: before, piece, after, rfl, ?_, hpiece⟩
          rw [collect_cons, hfirst, hbefore]
          rfl
      | some b =>
          rw [hfirst] at hcollect
          cases front with
          | nil =>
              -- the first contribution is the one that is looked for
              obtain ⟨rfl, -⟩ := List.cons.inj hcollect
              exact ⟨[], first, rest, rfl, rfl, hfirst⟩
          | cons c front =>
              obtain ⟨rfl, hrest⟩ := List.cons.inj hcollect
              obtain ⟨before, piece, after, rfl, hbefore, hpiece⟩ := ih hrest
              refine ⟨first :: before, piece, after, rfl, ?_, hpiece⟩
              rw [collect_cons, hfirst, hbefore]
              rfl

theorem tokensOf_findingsOf (before : List (List Char)) (piece : List Char) :
    tokensOf (findingsOf before piece) = (token? before piece).toList := by
  rw [findingsOf]
  cases remark? before piece <;> cases token? before piece <;> rfl

theorem diagnosticsOf_findingsOf (before : List (List Char)) (piece : List Char) :
    diagnosticsOf (findingsOf before piece) = (remark? before piece).toList := by
  rw [findingsOf]
  cases remark? before piece <;> cases token? before piece <;> rfl

theorem filterMap_flatMap_of_toList {α β γ : Type} {found : α → List β} {part? : β → Option γ}
    {contribution? : α → Option γ} (list : List α)
    (hfound : ∀ a ∈ list, (found a).filterMap part? = (contribution? a).toList) :
    (list.flatMap found).filterMap part? = list.filterMap contribution? := by
  rw [List.filterMap_flatMap, List.filterMap_eq_flatMap_toList contribution?]
  exact List.flatMap_congr hfound

/-- The tokens and the remarks of lines are collected from each of them. -/
theorem findings_eq_collect (source : String) :
    let pieces := Source.pieces source.toList
    ∃ last, CommentBehind last pieces ∧
      tokensOf (findings source) = collect token? pieces ∧
      diagnosticsOf (findings source) =
        collect remark? pieces ++ (last.map (·.openCommentDiagnostic)).toList := by
  intro pieces
  -- before the first line the scanner is outside of comments
  have hstart : CommentBehind none [] := .outside (by simp)
  obtain ⟨last, hlast, hfound⟩ := findingsOfLines_linesFrom pieces hstart
  have hfindings : findings source = _ := hfound
  refine ⟨last, hlast, ?_, ?_⟩
  · have htokens := filterMap_flatMap_of_toList pieces.zipIdx fun line _ =>
      tokensOf_findingsOf (pieces.take line.2) line.1
    rw [hfindings, tokensOf, List.filterMap_append]
    refine (congrArg (· ++ _) htokens).trans ?_
    cases last <;> simp [collect]
  · have hremarks := filterMap_flatMap_of_toList pieces.zipIdx fun line _ =>
      diagnosticsOf_findingsOf (pieces.take line.2) line.1
    rw [hfindings, diagnosticsOf, List.filterMap_append]
    refine (congrArg (· ++ _) hremarks).trans ?_
    cases last <;> rfl

theorem tokensOf_findings (source : String) :
    tokensOf (findings source) = collect token? (Source.pieces source.toList) := by
  obtain ⟨-, -, htokens, -⟩ := findings_eq_collect source
  exact htokens

/-! ## Where lines stand -/

theorem byteLength_dropReturn_le (piece : List Char) :
    byteLength (Source.dropReturn piece) ≤ byteLength piece := by
  obtain ⟨ending, -, heq⟩ := Source.exists_eq_dropReturn piece
  have hlength := congrArg byteLength heq
  rw [byteLength_append] at hlength
  omega

theorem offsetBehind_take_le {pieces : List (List Char)} {i j : Nat} (hle : i ≤ j) :
    offsetBehind (pieces.take i) ≤ offsetBehind (pieces.take j) := by
  have htake : pieces.take j = pieces.take i ++ (pieces.take j).drop i := by
    conv_lhs => rw [← List.take_append_drop i (pieces.take j), List.take_take, Nat.min_eq_left hle]
  rw [htake, offsetBehind_append]
  exact Nat.le_add_right _ _

/-- A line ends before every line behind it begins. -/
theorem span_stop_lt {pieces : List (List Char)} {i j : Nat} (hlt : i < j)
    (hlength : i < pieces.length) :
    (span (pieces.take i) pieces[i]).stop < offsetBehind (pieces.take j) := by
  -- the line feed behind the line is one byte more
  have hnext : offsetBehind (pieces.take (i + 1)) =
      offsetBehind (pieces.take i) + byteLength pieces[i] + 1 := by
    rw [← offsetBehind_concat, ← List.take_succ_eq_append_getElem hlength]
  have hle : offsetBehind (pieces.take (i + 1)) ≤ offsetBehind (pieces.take j) :=
    offsetBehind_take_le hlt
  have hreturn := byteLength_dropReturn_le pieces[i]
  simp only [span]
  omega

theorem line_of_token? {token : LineToken} (htoken : token? before piece = some token) :
    token.line = before.length + 1 ∧ token.span = span before piece := by
  unfold token? at htoken
  simp only at htoken
  split at htoken
  · split at htoken
    · cases htoken
    · cases htoken
      exact ⟨rfl, rfl⟩
  · cases htoken

/-- Tokens come from lines one behind the other. -/
theorem pairwise_collect_token? (pieces : List (List Char)) :
    (collect token? pieces).Pairwise fun token later =>
      token.line < later.line ∧ token.span.stop < later.span.start := by
  rw [collect, List.pairwise_filterMap, List.pairwise_iff_getElem]
  intro i j hi hj hlt token htoken later hlater
  rw [List.getElem_zipIdx, Nat.zero_add] at htoken hlater
  rw [List.length_zipIdx] at hi hj
  obtain ⟨hline, hspan⟩ := line_of_token? htoken
  obtain ⟨hlineLater, hspanLater⟩ := line_of_token? hlater
  rw [List.length_take] at hline hlineLater
  refine ⟨by omega, ?_⟩
  rw [hspan, hspanLater]
  exact span_stop_lt hlt hi

theorem byteLength_linesText (lines : List (List Char)) :
    byteLength (Source.linesText lines) = offsetBehind lines := by
  induction lines with
  | nil => rfl
  | cons line rest ih =>
      have hfeed : byteLength ['\n'] = 1 := rfl
      have hrest : byteLength (Source.linesText (line :: rest)) =
          byteLength (line ++ ['\n'] ++ Source.linesText rest) := rfl
      rw [hrest, byteLength_append, byteLength_append, hfeed, ih, offsetBehind]

/-- The text of a line stands behind the text of the lines before it. -/
theorem exists_eq_lineText_append {source : List Char} {after : List (List Char)}
    (hpieces : Source.pieces source = before ++ piece :: after) :
    ∃ back, source = Source.linesText before ++ Source.dropReturn piece ++ back := by
  obtain ⟨back, hsource⟩ := Source.exists_eq_linesText_append hpieces
  obtain ⟨ending, -, hending⟩ := Source.exists_eq_dropReturn piece
  refine ⟨ending ++ back, ?_⟩
  conv_lhs => rw [hsource, hending]
  simp only [List.append_assoc]

theorem span_eq (before : List (List Char)) (piece : List Char) :
    span before piece = ⟨byteLength (Source.linesText before),
      byteLength (Source.linesText before ++ Source.dropReturn piece)⟩ := by
  rw [span, byteLength_append, byteLength_linesText]

/-- The span of a line is where its text stands. -/
theorem covers_span {source : List Char} {after : List (List Char)}
    (hpieces : Source.pieces source = before ++ piece :: after) :
    (span before piece).Covers source (Source.dropReturn piece) := by
  obtain ⟨back, hsource⟩ := exists_eq_lineText_append hpieces
  rw [span_eq]
  exact ⟨Source.linesText before, back, hsource, rfl, rfl⟩

end EachLine

open EachLine in
/-- **Scanning is line by line.**  The tokens and remarks of a source are what each of its lines
contributes, in order.  Behind them comes one remark on the last marker if the number of markers is
odd.  The span of every line covers its text, and tokens have lines and spans one behind the
other. -/
theorem findings_eachLine (source : String) :
    let pieces := Source.pieces source.toList
    tokensOf (findings source) = collect token? pieces ∧
    (∃ closing, diagnosticsOf (findings source) = collect remark? pieces ++ closing ∧
      (Even (pieces.countP isMarker) ∧ closing = [] ∨
        ¬ Even (pieces.countP isMarker) ∧ ∃ front marker inner,
          pieces = front ++ marker :: inner ∧ isMarker marker = true ∧
          (∀ piece ∈ inner, isMarker piece = false) ∧
          closing =
            [⟨"unclosed block comment (~~)", front.length + 1, EachLine.span front marker⟩])) ∧
    (∀ before piece after, pieces = before ++ piece :: after →
      (EachLine.span before piece).Covers source.toList (Source.dropReturn piece)) ∧
    (tokensOf (findings source)).Pairwise fun token later =>
      token.line < later.line ∧ token.span.stop < later.span.start := by
  intro pieces
  obtain ⟨last, hlast, htokens, hremarks⟩ := findings_eq_collect source
  refine ⟨htokens, ⟨_, hremarks, hlast.openCommentDiagnostic_cases⟩,
    fun before piece after hpieces => covers_span hpieces, ?_⟩
  rw [htokens]
  exact pairwise_collect_token? pieces

end LineScript
