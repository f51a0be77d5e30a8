import LineScript.Proofs.Format.Meaning
import LineScript.Proofs.Statement.Texts
import Mathlib.Data.List.TakeWhile

/-!
# What formatting sees of a line

Formatting does not read lines.  It looks at the first word besides the ornaments and at the last
character, and forgets the lines before but for one number.

* `Writes.shapeOf_line` and `Writes.shapeOf_blockEnd`: on a line without a comment that reads as
  a statement this is enough to tell terminators, branches that go on with a statement, other
  headers and all other lines apart, as long as exactly the headers end with a colon.
* `textLines_format`: a source of such lines is formatted line by line, each with the level that the
  shapes of the lines before it lead to (`Format.levels`).

## From statements back to lines

The reader goes from a line to a statement, and the first fact needs the way back: from the
statement to the word that the line begins with.  For actions this is `word_of_readAction`, which
goes through all forms of lines, since every one of them is put together by a function of its own;
the three of them that declare names have the most ways to fail.  A terminator and a named block are
told apart by their first words as well (`isBlockEnd_of_readStatement`).  What the reader does with
the rest of the line does not matter here, and neither do the names that it knows, which is why
`Writes` leaves them open.
-/

namespace LineScript

open Text

/-! ## Lines with a text -/

namespace Text

variable {text : List Char}

theorem trim_ne_nil_of_mem {c : Char} (hmem : c ∈ text) (hblank : isBlank c = false) :
    trim text ≠ [] := by
  intro hnil
  obtain ⟨front, back, hfront, hback, heq⟩ := exists_eq_trim text
  rw [hnil, List.append_nil] at heq
  have hall := hfront.append hback
  rw [← heq] at hall
  rw [hall c hmem] at hblank
  cases hblank

theorem isBlank_of_getLast?_trim {c : Char} (hlast : (trim text).getLast? = some c) :
    isBlank c = false := by
  have hnot := List.head?_dropWhile_not isBlank (trimStart text).reverse
  rw [trim, trimEnd, List.getLast?_reverse] at hlast
  rw [hlast] at hnot
  simpa using hnot

end Text

namespace Format

/-- Whether there is anything on a line besides white space. -/
def hasText (line : List Char) : Bool := !(trim line).isEmpty

/-- The lines of a source that are not blank. -/
def textLines (source : String) : List (List Char) := (lines source.toList).filter hasText

variable {indent line : List Char} {level : Nat}

theorem hasText_of_mem {c : Char} (hmem : c ∈ line) (hblank : isBlank c = false) :
    hasText line = true := by
  rw [hasText, Bool.not_eq_true', List.isEmpty_eq_false_iff]
  exact trim_ne_nil_of_mem hmem hblank

/-- A line that is not blank has a last character that trimming keeps. -/
theorem exists_getLast?_trim (htext : hasText line = true) :
    ∃ c, (trim line).getLast? = some c ∧ isBlank c = false := by
  rw [hasText, Bool.not_eq_true', List.isEmpty_eq_false_iff] at htext
  have hlast := List.getLast?_eq_some_getLast htext
  exact ⟨_, hlast, isBlank_of_getLast?_trim hlast⟩

theorem getLast?_indented (htext : hasText line = true) :
    (indented indent level (trim line)).getLast? = (trim line).getLast? := by
  obtain ⟨c, hlast, -⟩ := exists_getLast?_trim htext
  rw [indented, List.getLast?_append, hlast, Option.some_or]

theorem hasText_indented (htext : hasText line = true) :
    hasText (indented indent level (trim line)) = true := by
  obtain ⟨c, hlast, hblank⟩ := exists_getLast?_trim htext
  refine hasText_of_mem ?_ hblank
  have hindented : (indented indent level (trim line)).getLast? = some c :=
    (getLast?_indented htext).trans hlast
  exact List.mem_of_getLast? hindented

/-- No carriage return stands at the end of an indented line. -/
theorem dropReturn_indented (htext : hasText line = true) :
    Source.dropReturn (indented indent level (trim line)) = indented indent level (trim line) := by
  refine if_neg fun hreturn => ?_
  obtain ⟨c, hlast, hblank⟩ := exists_getLast?_trim htext
  rw [getLast?_indented htext, hlast] at hreturn
  obtain rfl := Option.some.inj hreturn
  exact absurd hblank (by decide)

/-- The indents in front of a text show its level. -/
theorem indented_inj (hindent : indent ≠ []) {text : List Char} {level level' : Nat} :
    indented indent level text = indented indent level' text ↔ level = level' := by
  refine ⟨fun heq => ?_, fun heq => heq ▸ rfl⟩
  have hlength := congrArg List.length heq
  simp only [indented, List.length_append, List.length_flatten, List.map_replicate,
    List.sum_replicate_nat, Nat.add_right_cancel_iff] at hlength
  exact Nat.eq_of_mul_eq_mul_right (List.length_pos_iff.mpr hindent) hlength

/-! ## Levels -/

/-- The levels of lines of the given shapes, the first of them under the given level. -/
def levels (level : Nat) : List Shape → List Nat
  | [] => []
  | shape :: rest => shape.levelOf level :: levels (shape.levelAfter level) rest

theorem length_levels (level : Nat) (shapes : List Shape) :
    (levels level shapes).length = shapes.length := by
  induction shapes generalizing level with
  | nil => rfl
  | cons shape rest ih => rw [levels, List.length_cons, List.length_cons, ih]

/-- The level behind lines of the given shapes. -/
def levelBehind (level : Nat) (shapes : List Shape) : Nat :=
  shapes.foldl (fun level shape => shape.levelAfter level) level

theorem levelBehind_append (level : Nat) (front back : List Shape) :
    levelBehind level (front ++ back) = levelBehind (levelBehind level front) back :=
  List.foldl_append

theorem levels_append (level : Nat) (front back : List Shape) :
    levels level (front ++ back) = levels level front ++ levels (levelBehind level front) back := by
  induction front generalizing level with
  | nil => rfl
  | cons shape rest ih =>
      rw [List.cons_append, levels, ih]
      rfl

/-- Lines have given levels if the first of them have, and then the others. -/
theorem levels_append_eq_iff {level : Nat} {front back : List Shape}
    {levelsFront levelsBack : List Nat} (hlength : levelsFront.length = front.length) :
    levels level (front ++ back) = levelsFront ++ levelsBack ↔
      levels level front = levelsFront ∧ levels (levelBehind level front) back = levelsBack := by
  have hfront : (levels level front).length = levelsFront.length := by
    rw [length_levels, hlength]
  rw [levels_append]
  exact ⟨fun heq => List.append_inj heq hfront, fun ⟨heq, heq'⟩ => by rw [heq, heq']⟩

/-- Without markers of block comments, the lines that are not blank get their levels from their
shapes. -/
theorem filter_indentLines (indent : List Char) (level : Nat) {lines : List (List Char)}
    (hmarker : ∀ line ∈ lines, trim line ≠ "~~".toList) :
    let texts := lines.filter hasText
    (indentLines indent level false lines).filter hasText =
        List.zipWith (fun line level => indented indent level (trim line)) texts
          (levels level (texts.map fun line => shapeOf (trim line))) ∧
      ∀ line ∈ indentLines indent level false lines, Source.dropReturn line = line := by
  induction lines generalizing level with
  | nil => exact ⟨rfl, List.forall_mem_nil _⟩
  | cons line rest ih =>
      obtain ⟨hline, hrest⟩ := List.forall_mem_cons.mp hmarker
      by_cases hempty : trim line = []
      · have htext : ¬ hasText line = true := by simp [hasText, hempty]
        -- a blank line is written as an empty one, and neither counts
        have hnil : ¬ hasText [] = true := Bool.false_ne_true
        obtain ⟨hlines, hreturn⟩ := ih level hrest
        rw [indentLines_blank hempty, List.filter_cons_of_neg hnil, List.filter_cons_of_neg htext]
        exact ⟨hlines, List.forall_mem_cons.mpr ⟨rfl, hreturn⟩⟩
      · have htext : hasText line = true := by simp [hasText, hempty]
        obtain ⟨hlines, hreturn⟩ := ih ((shapeOf (trim line)).levelAfter level) hrest
        rw [indentLines_code hempty hline, List.filter_cons_of_pos (hasText_indented htext),
          List.filter_cons_of_pos htext, hlines]
        exact ⟨rfl, List.forall_mem_cons.mpr ⟨dropReturn_indented htext, hreturn⟩⟩

/-! ## The formatted source -/

theorem filter_lines {text last : List Char} {front : List (List Char)}
    (hpieces : text.splitOnP (· == '\n') = front ++ [last]) :
    (lines text).filter hasText = (front.map Source.dropReturn ++ [last]).filter hasText := by
  have hnil : ¬ hasText [] = true := Bool.false_ne_true
  rw [lines_eq hpieces, List.filter_append, List.filter_append]
  split
  next hempty => rw [List.isEmpty_iff.mp hempty, List.filter_cons_of_neg hnil]
  next => rfl

/-- A source without markers of block comments is formatted line by line, each under the level that
the lines before it lead to. -/
theorem textLines_format {indent source : String} (hindent : indent ≠ "")
    (hfeed : '\n' ∉ indent.toList)
    (hmarker : ∀ line ∈ textLines source, trim line ≠ "~~".toList) :
    textLines (format indent source) =
      List.zipWith (fun line level => indented indent.toList level (trim line)) (textLines source)
        (levels 0 ((textLines source).map fun line => shapeOf (trim line))) := by
  have hempty : indent.toList.isEmpty = false := by simpa using hindent
  obtain ⟨front, last, hsource⟩ := exists_splitOnP_eq_concat source.toList
  have hsourceLines : textLines source = (front.map Source.dropReturn ++ [last]).filter hasText :=
    filter_lines hsource
  -- a line without text is no marker either
  have hall : ∀ line ∈ front.map Source.dropReturn ++ [last], trim line ≠ "~~".toList := by
    intro line hline
    cases htext : hasText line with
    | true =>
        refine hmarker line ?_
        rw [hsourceLines]
        exact List.mem_filter.mpr ⟨hline, htext⟩
    | false =>
        have hnil : trim line = [] := by simpa [hasText] using htext
        rw [hnil]
        decide
  obtain ⟨hlines, hreturn⟩ := filter_indentLines indent.toList 0 hall
  have hpieces := splitOnP_format hfeed hsource
  rw [formatLines, hempty, if_neg Bool.false_ne_true] at hpieces
  obtain ⟨front', last', hformatted⟩ :=
    exists_splitOnP_eq_concat (format indent source).toList
  -- what was written loses no carriage return when it is cut into lines again
  have hsame : ∀ piece ∈ front', Source.dropReturn piece = piece := fun piece hpiece =>
    hreturn piece (hpieces ▸ hformatted ▸ List.mem_append_left _ hpiece)
  rw [textLines, filter_lines hformatted, Source.map_dropReturn_eq_self hsame, ← hformatted,
    hpieces, hlines, hsourceLines]

end Format

/-! ## Lines that read as a statement -/

namespace ActionWord

variable {name : String} {word : ActionWord}

/-- What a line with an action word does to the level of the lines after it. -/
def shape (word : ActionWord) : Format.Shape :=
  if word.continuesBlock then .continues else if word.opensBlock then .opens else .plain

theorem shape_of_plain (hplain : word.opensBlock = false) : word.shape = .plain := by
  cases word <;> first | rfl | cases hplain

theorem shape_of_first (hopens : word.opensBlock = true) (hfirst : word.continuesBlock = false) :
    word.shape = .opens := by
  rw [shape, hfirst, hopens]
  rfl

theorem shape_of_follows {previous : ActionWord} (hfollows : word.follows previous = true) :
    word.shape = .continues := by
  rw [shape, continuesBlock_of_follows hfollows]
  rfl

end ActionWord

section Reading

variable {known : KnownNames} {token : LineToken} {content : Line}

theorem word_of_readAction {word : ActionWord} {args : List String} {action : Action}
    (hread : readAction known word args = .ok action) : action.word = word := by
  cases word with
  | set =>
      -- an assignment to a name, to an element, or the form of three words
      rcases readSet_cases hread with
        ⟨_, -, rfl⟩ | ⟨_, _, _, -, -, rfl⟩ | ⟨_, _, _, _, _, -, -, -, rfl⟩
      all_goals rfl
  | forLoop =>
      rw [readAction] at hread
      unfold readFor at hread
      split at hread
      · split at hread
        · simp only at hread
          split at hread
          · cases hread
          · -- the iterable is read before the action is put together
            obtain ⟨expr, -, hread⟩ := bind_eq_ok_iff.mp hread
            cases hread
            rfl
        · cases hread
      · cases hread
  | define =>
      rw [readAction] at hread
      unfold readDefinition at hread
      split at hread
      all_goals cases hread
      rfl
  | call =>
      rw [readAction] at hread
      unfold readCall at hread
      split at hread
      · cases hread
      · obtain ⟨exprs, -, hread⟩ := bind_eq_ok_iff.mp hread
        cases hread
        rfl
  | returnValue =>
      rw [readAction] at hread
      split at hread
      · cases hread
        rfl
      · obtain ⟨expr, -, hread⟩ := bind_eq_ok_iff.mp hread
        cases hread
        rfl
  -- one operand, which may fail; the action itself is fixed by the word
  | print | ifBranch | elifBranch | whileLoop =>
      obtain ⟨expr, -, hread⟩ := bind_eq_ok_iff.mp hread
      cases hread
      rfl
  | exceptBlock | global | arith | elseBranch | tryBlock | finallyBlock | breakLoop | continueLoop
  | pass =>
      cases hread
      rfl

/-- The action word of a line is the first word of its token, perhaps with a colon behind it. -/
theorem word_of_readStatement (hread : readStatement known token = .ok (.line content)) :
    isBlockEnd token.action = false ∧
      ActionWord.ofSpelling? ((withoutColon? token.action).getD token.action) =
        some content.action.word := by
  cases readStatement_eq_ok_iff.mp hread with
  | branch hend hargs hname hword =>
      rw [hname, Option.getD_some]
      exact ⟨hend, ActionWord.ofSpelling?_of_ofHeader? hword⟩
  | action hend hedge hheader hword haction =>
      rw [ActionWord.withoutColon?_of_ofSpelling? hword, Option.getD_none, hword]
      exact ⟨hend, congrArg some (word_of_readAction haction).symm⟩

theorem isBlockEnd_of_readStatement {state : LineState} {pictograph : Option String}
    (hread : readStatement known token = .ok (.blockEnd state pictograph)) :
    isBlockEnd token.action = true := by
  cases readStatement_eq_ok_iff.mp hread with
  | blockEnd hend => exact hend

end Reading

/-- Whether a statement is the header of a body. -/
def Statement.isHeader (statement : Statement) : Bool :=
  statement.blockEvent?.any (· != .closes)

/-- What a line with an action or a terminator does to the level of the lines after it. -/
def Statement.shape? : Statement → Option Format.Shape
  | .line content => some content.action.word.shape
  | .blockEnd .. => some .closes
  | .block .. | .arrow _ => none

@[simp] theorem Statement.shape?_line (content : Line) :
    (Statement.line content).shape? = some content.action.word.shape := rfl

@[simp] theorem Statement.shape?_blockEnd (state : LineState) (pictograph : Option String) :
    (Statement.blockEnd state pictograph).shape? = some .closes := rfl

/-- A line without a comment that reads as a statement, and ends with a colon exactly if the
statement is a header. -/
structure Writes (line : List Char) (statement : Statement) : Prop where
  uncommented : '#' ∉ line
  reads : ∃ known number start token,
    SourceLine.token? ⟨number, start, line⟩ = some token ∧
      readStatement known token = .ok statement
  colon : (trim line).getLast? = some ':' ↔ statement.isHeader = true

namespace Writes

open Format

variable {line : List Char} {statement : Statement} {content : Line}

/-- The word that formatting looks at is the action of the line's token. -/
theorem exists_actionWord (hwrites : Writes line statement) :
    ∃ known token, actionWord (trim line) = token.action ∧
      readStatement known token = .ok statement := by
  obtain ⟨known, number, start, token, htoken, hread⟩ := hwrites.reads
  refine ⟨known, token, ?_, hread⟩
  -- without a comment all of the line is code
  have hcode : SourceLine.code ⟨number, start, line⟩ = line :=
    List.takeWhile_eq_self_iff.mpr fun c hc =>
      bne_iff_ne.mpr fun hmark => hwrites.uncommented (hmark ▸ hc)
  unfold SourceLine.token? SourceLine.words at htoken
  rw [hcode] at htoken
  rw [actionWord, words_trim]
  simp only at htoken
  split at htoken
  next => cases htoken
  next action args hcontent =>
    cases htoken
    rw [hcontent]
    rfl

theorem head?_trim_ne (hwrites : Writes line statement) : (trim line).head? ≠ some '#' :=
  fun hhead => hwrites.uncommented (mem_of_mem_trim (List.mem_of_head? hhead))

theorem shapeOf_line (hwrites : Writes line (.line content)) :
    shapeOf (trim line) = content.action.word.shape := by
  obtain ⟨known, token, haction, hread⟩ := hwrites.exists_actionWord
  obtain ⟨hend, hword⟩ := word_of_readStatement hread
  have hheader : (Statement.line content).isHeader = content.action.word.opensBlock := by
    rw [Statement.isHeader, Statement.blockEvent?]
    cases content.action.word.opensBlock <;> rfl
  have hcolon := hwrites.colon
  rw [hheader] at hcolon
  simp only [shapeOf, haction, if_neg hwrites.head?_trim_ne, hend, hword, Option.any_some, hcolon,
    ActionWord.shape, Bool.false_eq_true, if_false]

theorem shapeOf_blockEnd {state : LineState} {pictograph : Option String}
    (hwrites : Writes line (.blockEnd state pictograph)) : shapeOf (trim line) = .closes := by
  obtain ⟨known, token, haction, hread⟩ := hwrites.exists_actionWord
  simp only [shapeOf, haction, if_neg hwrites.head?_trim_ne, isBlockEnd_of_readStatement hread,
    if_true]

variable {shape : Shape}

theorem shapeOf_trim (hwrites : Writes line statement) (hshape : statement.shape? = some shape) :
    shapeOf (trim line) = shape := by
  cases statement with
  | line content =>
      cases hshape
      exact hwrites.shapeOf_line
  | blockEnd state pictograph =>
      cases hshape
      exact hwrites.shapeOf_blockEnd
  | block name state => cases hshape
  | arrow edge => cases hshape

/-- A marker of block comments is none of these lines. -/
theorem trim_ne_marker (hwrites : Writes line statement) (hshape : statement.shape? = some shape) :
    trim line ≠ "~~".toList := by
  intro hmarker
  obtain ⟨known, token, haction, hread⟩ := hwrites.exists_actionWord
  -- a marker would be the action word, and none is spelled like that
  have hword : actionWord "~~".toList = "~~" := by decide
  rw [hmarker, hword] at haction
  cases statement with
  | line content =>
      have hspelling := (word_of_readStatement hread).2
      rw [← haction] at hspelling
      cases hspelling
  | blockEnd state pictograph =>
      have hend := isBlockEnd_of_readStatement hread
      rw [← haction] at hend
      exact absurd hend (by decide)
  | block name state => cases hshape
  | arrow edge => cases hshape

end Writes

end LineScript
