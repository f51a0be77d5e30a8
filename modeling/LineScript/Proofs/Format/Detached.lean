import LineScript.Proofs.Format.Shape
import LineScript.Proofs.Program.ActionLine

/-!
# Comments that hide nothing

Scanning cuts a line at the first mark of a comment and reads the words in front of it (`scanned`).
Formatting knows of no comments but those that are the whole line: it parts all words of a line
(`seen`), and looks at the last character of all of it.  This file tells on which lines that makes
no difference, by what is written there and not by what formatting makes of it (`IsDetached`).

There are three ways in which a comment shows.

* **A glued mark.**  On the line `end#c` scanning finds the terminator `end`, and formatting a word
  that closes no level (`IsApart`).
* **A colon.**  A line whose first word closes no level opens one if it ends with a colon.  The
  comment of `if true: # c` hides the colon, and that of `print x # y:` brings one
  (`IsDetached.colon`).
* **A pictograph.**  On the line `☀#c end` the mark is part of the pictograph for formatting, and
  `end` is the first word behind it.  For scanning nothing is left (`BringsNoWord`).

A marker of block comments with a comment behind it is none, neither to scanning nor to formatting.
It turns into one where the comment is taken away, so it is excepted too (`IsDetached.marker`).

Main statement: these are all (`isDetached_iff`).

## Strategy

The words of the whole line and those in front of the comment are the same up to the word with the
mark in it (`words_cases`).  If the first word besides the ornaments stands in front of that one, it
is the same for both (`closing?_seen_of_content_ne_nil`).  If there are only ornaments, it is the
word with the mark, or, if that is a pictograph, the one behind it (`closing?_append_cons`).  A word
with a mark in it closes no level, because the words that do are names
(`exists_name_of_closingShape?`).
-/

namespace LineScript

open Text

/-! ## Ornaments and what is behind them -/

namespace Ornaments

variable {front : List String}

/-- Words behind a first word that is no ornament stay in the content. -/
theorem content_ofWords_append (hcontent : (ofWords front).content ≠ []) (more : List String) :
    (ofWords (front ++ more)).content = (ofWords front).content ++ more := by
  have hwithState (state : LineState) {rest : List String}
      (hrest : (withState state rest).content ≠ []) :
      (withState state (rest ++ more)).content = (withState state rest).content ++ more := by
    cases rest with
    | nil => exact absurd rfl hrest
    | cons word rest =>
        rw [List.cons_append, withState, withState]
        split <;> rfl
  cases front with
  | nil => exact absurd rfl hcontent
  | cons word rest =>
      rw [ofWords] at hcontent ⊢
      rw [List.cons_append, ofWords]
      split at hcontent
      next state hglyph => exact hwithState state hcontent
      next hglyph => exact hwithState .continued hcontent

theorem withState_append_cons {state : LineState} (hcontent : (withState state front).content = [])
    (word : String) (more : List String) :
    (withState state (front ++ word :: more)).content = word :: more ∨
      isPictograph word = true ∧ (withState state (front ++ word :: more)).pictograph = some word ∧
        (withState state (front ++ word :: more)).content = more := by
  cases front with
  | nil =>
      rw [List.nil_append, withState]
      split
      next hpictograph => exact .inr ⟨hpictograph, rfl, rfl⟩
      next => exact .inl rfl
  | cons first rest =>
      rw [withState] at hcontent
      split at hcontent
      next hfirst =>
        obtain rfl : rest = [] := hcontent
        left
        rw [List.cons_append, withState, if_pos hfirst]
        rfl
      next => cases hcontent

/-- Behind ornaments, a word is the first one of the content, a pictograph or a glyph. -/
theorem ofWords_append_cons (hcontent : (ofWords front).content = []) (word : String)
    (more : List String) :
    (ofWords (front ++ word :: more)).content = word :: more ∨
      (isPictograph word = true ∧ (ofWords (front ++ word :: more)).pictograph = some word ∧
        (ofWords (front ++ word :: more)).content = more) ∨
      front = [] ∧ (LineState.ofGlyph? word).isSome = true := by
  cases front with
  | nil =>
      rw [List.nil_append, ofWords]
      split
      next hglyph => exact .inr (.inr ⟨rfl, by rw [hglyph]; rfl⟩)
      next =>
        have hnil : (withState .continued []).content = [] := rfl
        exact (withState_append_cons hnil word more).imp_right .inl
  | cons first rest =>
      rw [ofWords] at hcontent
      rw [List.cons_append, ofWords]
      split at hcontent <;> exact (withState_append_cons hcontent word more).imp_right .inl

/-- Behind ornaments, a last word is all of the content, or an ornament too. -/
theorem content_ofWords_concat (hcontent : (ofWords front).content = []) (word : String) :
    (ofWords (front ++ [word])).content = [word] ∨ (ofWords (front ++ [word])).content = [] := by
  rcases ofWords_append_cons hcontent word [] with hword | ⟨-, -, hnil⟩ | ⟨rfl, hglyph⟩
  · exact .inl hword
  · exact .inr hnil
  · obtain ⟨state, hstate⟩ := Option.isSome_iff_exists.mp hglyph
    right
    rw [List.nil_append, ofWords, hstate]
    rfl

end Ornaments

namespace Format

/-! ## Words that close a level -/

/-- What a first word does to the level if it closes one, as terminators do, and branches that go on
with a statement, which may have a colon behind them. -/
def closingShape? (word : String) : Option Shape :=
  if isBlockEnd word then some .closes
  else if (ActionWord.ofSpelling? ((withoutColon? word).getD word)).any (·.continuesBlock) then
    some .continues
  else none

/-- What the first word of a content does to the level if it closes one. -/
def closing? (content : List String) : Option Shape := content.head?.bind closingShape?

/-- A word that closes a level is a name, maybe with a colon behind it, and no pictograph. -/
theorem exists_name_of_closingShape? {word : String}
    (hcloses : (closingShape? word).isSome = true) :
    ∃ name : String, isIdentifier name = true ∧ isPictograph name = false ∧
      (word.toList = name.toList ∨ word.toList = name.toList ++ [':']) := by
  rw [closingShape?] at hcloses
  split at hcloses
  next hend =>
    -- terminators are a list of words
    have hall : ∀ name ∈ ["end", "结束", "完了", "终", "終"],
        isIdentifier name = true ∧ isPictograph name = false := by decide +kernel
    obtain ⟨hidentifier, hpictograph⟩ := hall word (List.contains_iff_mem.mp hend)
    exact ⟨word, hidentifier, hpictograph, .inl rfl⟩
  next =>
    split at hcloses
    next hcontinues =>
      -- a branch is a spelling of its action, from which at most a colon was taken
      obtain ⟨action, hspelling, -⟩ := (Option.any_eq_true _ _).mp hcontinues
      obtain ⟨hidentifier, hpictograph, -⟩ := ActionWord.isIdentifier_of_ofSpelling? hspelling
      refine ⟨_, hidentifier, hpictograph, ?_⟩
      rw [withoutColon?]
      split
      next hcolon =>
        obtain ⟨front, hfront⟩ := List.getLast?_eq_some_iff.mp hcolon
        right
        rw [Option.getD_some, String.toList_ofList, hfront, List.dropLast_concat]
      next => exact .inl rfl
    next => cases hcloses

/-- A word that closes a level has no mark of a comment in it, and begins like no pictograph. -/
theorem of_isSome_closingShape? {word : String} (hcloses : (closingShape? word).isSome = true) :
    '#' ∉ word.toList ∧ ∃ c rest, word.toList = c :: rest ∧ c ≠ '(' ∧
      Pictograph.isPicture c = false := by
  obtain ⟨name, hidentifier, hpictograph, hword⟩ := exists_name_of_closingShape? hcloses
  -- neither the mark nor a parenthesis is in a name
  have hmark : '#' ∉ name.toList := fun hmem =>
    Bool.eq_false_iff.mp (isIdentifier_eq_false_of_mem hmem (by decide)) hidentifier
  have hface : '(' ∉ name.toList := fun hmem =>
    Bool.eq_false_iff.mp (isIdentifier_eq_false_of_mem hmem (by decide)) hidentifier
  obtain ⟨c, rest, hname⟩ : ∃ c rest, name.toList = c :: rest := by
    apply List.exists_cons_of_ne_nil
    intro hnil
    rw [isIdentifier, hnil] at hidentifier
    cases hidentifier
  have hpicture : Pictograph.isPicture c = false := by
    rw [isPictograph, hname, Bool.or_eq_false_iff] at hpictograph
    exact hpictograph.2
  have hparenthesis : c ≠ '(' := by
    rintro rfl
    exact hface (hname ▸ List.mem_cons_self)
  rcases hword with hword | hword
  · rw [hword]
    exact ⟨hmark, c, rest, hname, hparenthesis, hpicture⟩
  · rw [hword, List.mem_append, not_or, hname]
    rw [hname] at hmark
    exact ⟨⟨hmark, by decide⟩, c, rest ++ [':'], rfl, hparenthesis, hpicture⟩

theorem closingShape?_of_mem {word : String} (hmark : '#' ∈ word.toList) :
    closingShape? word = none := by
  cases hclosing : closingShape? word with
  | none => rfl
  | some shape =>
      have hcloses : (closingShape? word).isSome = true := by rw [hclosing]; rfl
      exact absurd hmark (of_isSome_closingShape? hcloses).1

/-- What is put behind a word that closes a level does not make a pictograph of it. -/
theorem isPictograph_append {word : String} (hcloses : (closingShape? word).isSome = true)
    (more : List Char) : isPictograph (String.ofList (word.toList ++ more)) = false := by
  obtain ⟨-, c, rest, hword, hparenthesis, hpicture⟩ := of_isSome_closingShape? hcloses
  simp [isPictograph, Pictograph.isFace, hword, hparenthesis, hpicture]

theorem closingShape?_cases (word : String) :
    closingShape? word = none ∨ closingShape? word = some .closes ∨
      closingShape? word = some .continues := by
  unfold closingShape?
  split
  · exact .inr (.inl rfl)
  · split
    · exact .inr (.inr rfl)
    · exact .inl rfl

theorem closing?_cases (content : List String) :
    closing? content = none ∨ closing? content = some .closes ∨
      closing? content = some .continues := by
  cases content with
  | nil => exact .inl rfl
  | cons word args => exact closingShape?_cases word

/-- Lines have the same shape if their first words close the same level, or none, and those without
such a word end with a colon alike. -/
theorem getD_closing?_eq_iff (content content' : List String) (colon colon' : Prop)
    [Decidable colon] [Decidable colon'] :
    (closing? content).getD (if colon then .opens else .plain) =
        (closing? content').getD (if colon' then .opens else .plain) ↔
      closing? content = closing? content' ∧ (closing? content = none → (colon ↔ colon')) := by
  have hcolon : (if colon then Shape.opens else .plain) = (if colon' then .opens else .plain) ↔
      (colon ↔ colon') := by
    by_cases h : colon <;> by_cases h' : colon' <;> simp [h, h']
  have hopens (colon : Prop) [Decidable colon] :
      (if colon then Shape.opens else .plain) ≠ .closes ∧
        (if colon then Shape.opens else .plain) ≠ .continues := by
    split <;> decide
  obtain ⟨hcloses, hcontinues⟩ := hopens colon
  obtain ⟨hcloses', hcontinues'⟩ := hopens colon'
  -- closing a level is no shape of a line without a word that does so
  rcases closing?_cases content with hclosing | hclosing | hclosing <;>
    rcases closing?_cases content' with hclosing' | hclosing' | hclosing' <;>
    simp [hclosing, hclosing', hcolon, hcloses, hcontinues, hcloses'.symm, hcontinues'.symm]

/-- The colon at the end of a line matters if its first word closes no level. -/
theorem shapeOf_eq {text : List Char} (hhead : text.head? ≠ some '#') :
    shapeOf text = (closing? (Ornaments.ofWords ((words text).map String.ofList)).content).getD
      (if text.getLast? = some ':' then .opens else .plain) := by
  have hword : closing? (Ornaments.ofWords ((words text).map String.ofList)).content =
      closingShape? (actionWord text) := by
    rw [closing?, actionWord]
    cases (Ornaments.ofWords ((words text).map String.ofList)).content with
    | nil => decide
    | cons word args => rfl
  rw [hword, shapeOf, if_neg hhead, closingShape?]
  by_cases hend : isBlockEnd (actionWord text) = true
  · simp only [hend, if_true, Option.getD_some]
  · simp only [hend, Bool.false_eq_true, if_false]
    split <;> rfl

/-! ## Lines and their comments -/

/-- The text in front of the first mark of a comment. -/
def beforeComment (line : List Char) : List Char := line.takeWhile (· != '#')

/-- The action word and the arguments that scanning reads on a line. -/
def scanned (line : List Char) : List String := (Ornaments.ofWords (EachLine.words line)).content

/-- The parts of a line for formatting, which takes a comment for words like all others. -/
def seen (line : List Char) : Ornaments := .ofWords ((words line).map String.ofList)

/-- Between the comment and a word that closes a level stands white space or another word. -/
def IsApart (line : List Char) : Prop :=
  (closing? (scanned line)).isSome = true → (scanned line).tail = [] →
    (beforeComment line).getLast?.any isBlank = true

/-- If the comment begins inside of a pictograph, no word that closes a level comes behind that. -/
def BringsNoWord (line : List Char) : Prop :=
  ∀ picture ∈ (seen line).pictograph, '#' ∈ picture.toList → closing? (seen line).content = none

/-- A comment that does not change what a line is to formatting. -/
structure IsDetached (line : List Char) : Prop where
  /-- The text in front of it is no marker of block comments, which it would be on its own. -/
  marker : trim (beforeComment line) ≠ "~~".toList
  apart : IsApart line
  /-- Where no word in front of it closes a level, the line ends with a colon with the comment and
  without it alike, -/
  colon : closing? (scanned line) = none →
    ((trim (beforeComment line)).getLast? = some ':' ↔ (trim line).getLast? = some ':')
  /-- and the comment brings in no such word. -/
  word : closing? (scanned line) = none → BringsNoWord line

variable {line : List Char}

instance (line : List Char) : Decidable (IsApart line) :=
  inferInstanceAs (Decidable (_ → _ → _))

instance (line : List Char) : Decidable (BringsNoWord line) :=
  inferInstanceAs (Decidable (∀ picture ∈ (seen line).pictograph, _ → _))

instance (line : List Char) : Decidable (IsDetached line) :=
  decidable_of_iff
    (trim (beforeComment line) ≠ "~~".toList ∧ IsApart line ∧
      (closing? (scanned line) = none →
        ((trim (beforeComment line)).getLast? = some ':' ↔ (trim line).getLast? = some ':')) ∧
      (closing? (scanned line) = none → BringsNoWord line))
    ⟨fun ⟨hmarker, hapart, hcolon, hword⟩ => ⟨hmarker, hapart, hcolon, hword⟩,
      fun hdetached => ⟨hdetached.marker, hdetached.apart, hdetached.colon, hdetached.word⟩⟩

theorem words_beforeComment (line : List Char) :
    EachLine.words line = (words (beforeComment line)).map String.ofList := by
  rw [EachLine.words, beforeComment, words_takeWhile_trim (by decide) line]

theorem exists_eq_beforeComment_append (hmark : '#' ∈ line) :
    ∃ comment, line = beforeComment line ++ '#' :: comment := by
  obtain ⟨front, comment, hline, hfront⟩ := List.eq_append_cons_of_mem hmark
  have hall : ∀ c ∈ front, (c != '#') = true := fun c hc =>
    bne_iff_ne.mpr (ne_of_mem_of_not_mem hc hfront)
  have hbefore : beforeComment line = front := by
    rw [beforeComment, hline, List.takeWhile_append_of_pos hall,
      List.takeWhile_cons_of_neg (by decide), List.append_nil]
  exact ⟨comment, hbefore ▸ hline⟩

/-- The words of a line with a comment are those in front of it and others, of which the first has
the mark in it.  Without white space in front of the mark, that is the end of the last word in front
of it. -/
theorem words_cases (hbegins : EachLine.beginsWithWord line = true) (hmark : '#' ∈ line) :
    ((beforeComment line).getLast?.any isBlank = true ∧
      ∃ word more, '#' ∈ word.toList ∧
        (words line).map String.ofList = EachLine.words line ++ word :: more) ∨
    ((beforeComment line).getLast?.any isBlank = false ∧
      ∃ earlier last comment more, EachLine.words line = earlier ++ [last] ∧
        (words line).map String.ofList =
          earlier ++ String.ofList (last.toList ++ '#' :: comment) :: more) := by
  obtain ⟨comment, hline⟩ := exists_eq_beforeComment_append hmark
  have hscanned := words_beforeComment line
  have hne : beforeComment line ≠ [] := by
    intro hnil
    rw [hnil] at hscanned
    rw [(EachLine.words_eq_nil_iff line).mp hscanned] at hbegins
    cases hbegins
  -- the character in front of the mark decides whether the mark begins a word
  obtain ⟨front, c, hfront⟩ := (List.eq_nil_or_concat' _).resolve_left hne
  rw [hfront] at hline hscanned ⊢
  rw [List.getLast?_concat, Option.any_some]
  cases hblank : isBlank c with
  | true =>
      left
      obtain ⟨rest, later, hwords⟩ := exists_words_cons (by decide : isBlank '#' = false) comment
      refine ⟨rfl, String.ofList ('#' :: rest), later.map String.ofList, by simp, ?_⟩
      rw [hscanned, hline, words_append_blank (blank_singleton hblank), List.append_assoc,
        List.singleton_append, words_append_cons hblank, hwords, List.map_append]
      rfl
  | false =>
      right
      obtain ⟨earlier, last, rest, later, hlast, -, hwords⟩ :=
        exists_words_append hblank (by decide : isBlank '#' = false) front comment
      refine ⟨rfl, earlier.map String.ofList, String.ofList last, rest, later.map String.ofList,
        ?_, ?_⟩
      · rw [hscanned, hlast, List.map_append]
        rfl
      · rw [hline, hwords, List.map_append, String.toList_ofList]
        rfl

theorem ofGlyph?_of_mem {word : String} (hmark : '#' ∈ word.toList) :
    LineState.ofGlyph? word = none := by
  unfold LineState.ofGlyph?
  split
  case h_6 => rfl
  all_goals exact absurd hmark (by decide)

/-- Behind ornaments, a word with a mark in it closes no level, and only as a pictograph it lets
another word be the first one. -/
theorem closing?_append_cons {front : List String} {word : String}
    (hcontent : (Ornaments.ofWords front).content = []) (hmark : '#' ∈ word.toList)
    (more : List String) :
    closing? (Ornaments.ofWords (front ++ word :: more)).content = none ∨
      isPictograph word = true ∧
        (Ornaments.ofWords (front ++ word :: more)).pictograph = some word := by
  rcases Ornaments.ofWords_append_cons hcontent word more with
    hword | ⟨hpictograph, hpicture, -⟩ | ⟨-, hglyph⟩
  · left
    rw [hword]
    exact closingShape?_of_mem hmark
  · exact .inr ⟨hpictograph, hpicture⟩
  · rw [ofGlyph?_of_mem hmark] at hglyph
    cases hglyph

theorem closing?_append {content : List String} (hne : content ≠ []) (more : List String) :
    closing? (content ++ more) = closing? content := by
  rw [closing?, List.head?_append_of_ne_nil _ hne, closing?]

theorem IsApart.of_eq_none (hnone : closing? (scanned line) = none) : IsApart line := by
  intro hsome
  rw [hnone] at hsome
  cases hsome

section FirstWord

variable {earlier later more : List String} {last : String} {comment : List Char}

/-- A first word in front of the one with the mark in it is the same with the comment. -/
theorem closing?_seen_of_content_ne_nil (hcontent : (Ornaments.ofWords earlier).content ≠ [])
    (hscanned : EachLine.words line = earlier ++ later)
    (hseen : (words line).map String.ofList = earlier ++ more) :
    closing? (scanned line) = closing? (seen line).content := by
  rw [scanned, seen, hscanned, hseen, Ornaments.content_ofWords_append hcontent,
    Ornaments.content_ofWords_append hcontent, closing?_append hcontent, closing?_append hcontent]

/-- A comment that is glued to a first word hides the level that this closes. -/
theorem closing?_seen_of_glued (hcontent : (Ornaments.ofWords earlier).content = [])
    (hglued : (beforeComment line).getLast?.any isBlank = false)
    (hscanned : EachLine.words line = earlier ++ [last])
    (hseen : (words line).map String.ofList =
      earlier ++ String.ofList (last.toList ++ '#' :: comment) :: more)
    (hcloses : (closing? (scanned line)).isSome = true) :
    ¬ IsApart line ∧ closing? (seen line).content = none := by
  -- ornaments alone close nothing, so the first word is the last one in front of the mark
  have hlast : scanned line = [last] := by
    rw [scanned, hscanned] at hcloses ⊢
    refine (Ornaments.content_ofWords_concat hcontent last).resolve_right fun hnil => ?_
    rw [hnil] at hcloses
    cases hcloses
  constructor
  · intro hapart
    have hblank := hapart hcloses (by rw [hlast]; rfl)
    rw [hglued] at hblank
    cases hblank
  · have hword : '#' ∈ (String.ofList (last.toList ++ '#' :: comment)).toList := by simp
    have hpictograph : isPictograph (String.ofList (last.toList ++ '#' :: comment)) = false := by
      rw [hlast] at hcloses
      exact isPictograph_append hcloses ('#' :: comment)
    rw [seen, hseen]
    refine (closing?_append_cons hcontent hword more).resolve_right fun hpicture => ?_
    rw [hpictograph] at hpicture
    cases hpicture.1

end FirstWord

/-- Scanning and formatting agree on whether a line closes a level, or the comment is glued to the
word that does so, or it begins inside of a pictograph. -/
theorem closing?_seen_cases (hbegins : EachLine.beginsWithWord line = true) (hmark : '#' ∈ line) :
    (closing? (scanned line) = closing? (seen line).content ∧ IsApart line) ∨
    ((closing? (scanned line)).isSome = true ∧ ¬ IsApart line ∧
      closing? (seen line).content = none) ∨
    (closing? (scanned line) = none ∧
      ∃ picture ∈ (seen line).pictograph, '#' ∈ picture.toList) := by
  -- without a word that closes a level in front of it, the word with the mark decides
  have hornaments {front : List String} {word : String} {more : List String}
      (hcontent : (Ornaments.ofWords front).content = []) (hword : '#' ∈ word.toList)
      (hseen : (words line).map String.ofList = front ++ word :: more)
      (hnone : closing? (scanned line) = none) :
      (closing? (scanned line) = closing? (seen line).content ∧ IsApart line) ∨
        ∃ picture ∈ (seen line).pictograph, '#' ∈ picture.toList := by
    rw [seen, hseen]
    rcases closing?_append_cons hcontent hword more with hseenNone | ⟨-, hpicture⟩
    · exact .inl ⟨hnone.trans hseenNone.symm, .of_eq_none hnone⟩
    · exact .inr ⟨word, hpicture, hword⟩
  rcases words_cases hbegins hmark with ⟨hblank, word, more, hword, hseen⟩ |
    ⟨hglued, earlier, last, comment, more, hscanned, hseen⟩
  · -- white space is in front of the mark, so the comment begins with a word of its own
    by_cases hcontent : scanned line = []
    · have hnone : closing? (scanned line) = none := by rw [hcontent]; rfl
      exact (hornaments hcontent hword hseen hnone).imp_right fun hpicture =>
        .inr ⟨hnone, hpicture⟩
    · refine .inl ⟨?_, fun _ _ => hblank⟩
      exact closing?_seen_of_content_ne_nil hcontent (List.append_nil _).symm hseen
  · -- the comment begins at the end of a word, which may be the first one or a pictograph
    by_cases hcontent : (Ornaments.ofWords earlier).content = []
    · cases hcloses : (closing? (scanned line)).isSome with
      | true =>
          exact .inr (.inl ⟨rfl, closing?_seen_of_glued hcontent hglued hscanned hseen hcloses⟩)
      | false =>
          have hnone : closing? (scanned line) = none :=
            Option.isNone_iff_eq_none.mp (Option.isSome_eq_false_iff.mp hcloses)
          exact (hornaments hcontent (by simp) hseen hnone).imp_right fun hpicture =>
            .inr ⟨hnone, hpicture⟩
    · refine .inl ⟨closing?_seen_of_content_ne_nil hcontent hscanned hseen, fun _ htail => ?_⟩
      rw [scanned, hscanned, Ornaments.content_ofWords_append hcontent,
        List.tail_append_of_ne_nil hcontent] at htail
      simp at htail

/-- Scanning and formatting agree on the level that a line closes if the comment is apart from the
word that does so and brings in no such word. -/
theorem closing?_seen_eq_iff (hbegins : EachLine.beginsWithWord line = true) (hmark : '#' ∈ line) :
    closing? (scanned line) = closing? (seen line).content ↔
      IsApart line ∧ (closing? (scanned line) = none → BringsNoWord line) := by
  rcases closing?_seen_cases hbegins hmark with
    ⟨hsame, hapart⟩ | ⟨hsome, hglued, hnone⟩ | ⟨hnone, picture, hpicture, hword⟩
  · exact iff_of_true hsame ⟨hapart, fun hnone _ _ _ => hsame.symm.trans hnone⟩
  · refine iff_of_false (fun hsame => ?_) fun hdetached => hglued hdetached.1
    rw [hsame, hnone] at hsome
    cases hsome
  · rw [hnone]
    -- with a mark inside of the pictograph, all depends on the word behind it
    refine ⟨fun hseen => ⟨.of_eq_none hnone, fun _ _ _ _ => hseen.symm⟩, fun hdetached => ?_⟩
    exact (hdetached.2 rfl picture hpicture hword).symm

theorem shapeOf_trim (hbegins : EachLine.beginsWithWord line = true) :
    shapeOf (trim line) = (closing? (seen line).content).getD
      (if (trim line).getLast? = some ':' then .opens else .plain) := by
  have hhead : (trim line).head? ≠ some '#' := by
    intro hhead
    rw [EachLine.beginsWithWord, hhead] at hbegins
    cases hbegins
  rw [shapeOf_eq hhead, words_trim, ← seen]

theorem shapeOf_trim_beforeComment (line : List Char) :
    shapeOf (trim (beforeComment line)) = (closing? (scanned line)).getD
      (if (trim (beforeComment line)).getLast? = some ':' then .opens else .plain) := by
  have hhead : (trim (beforeComment line)).head? ≠ some '#' := by
    intro hhead
    have hmem : '#' ∈ beforeComment line := mem_of_mem_trim (List.mem_of_head? hhead)
    exact absurd (List.mem_takeWhile_imp hmem) (by decide)
  rw [shapeOf_eq hhead, words_trim, ← words_beforeComment, ← scanned]

/-- A comment leaves the shape of a line as it is exactly if it is apart from a word that closes a
level, and on a line without such a word neither hides nor brings a colon or such a word. -/
theorem shapeOf_beforeComment_iff (hbegins : EachLine.beginsWithWord line = true)
    (hmark : '#' ∈ line) :
    shapeOf (trim (beforeComment line)) = shapeOf (trim line) ↔
      IsApart line ∧ (closing? (scanned line) = none →
        ((trim (beforeComment line)).getLast? = some ':' ↔ (trim line).getLast? = some ':') ∧
          BringsNoWord line) := by
  rw [shapeOf_trim_beforeComment, shapeOf_trim hbegins, getD_closing?_eq_iff,
    closing?_seen_eq_iff hbegins hmark]
  constructor
  · rintro ⟨⟨hapart, hword⟩, hcolon⟩
    exact ⟨hapart, fun hnone => ⟨hcolon hnone, hword hnone⟩⟩
  · rintro ⟨hapart, hopen⟩
    exact ⟨⟨hapart, fun hnone => (hopen hnone).2⟩, fun hnone => (hopen hnone).1⟩

/-- A detached comment is one that leaves the shape of its line, and is behind no marker. -/
theorem isDetached_iff (hbegins : EachLine.beginsWithWord line = true) (hmark : '#' ∈ line) :
    IsDetached line ↔ trim (beforeComment line) ≠ "~~".toList ∧
      shapeOf (trim (beforeComment line)) = shapeOf (trim line) := by
  rw [shapeOf_beforeComment_iff hbegins hmark]
  constructor
  · intro hdetached
    exact ⟨hdetached.marker, hdetached.apart,
      fun hnone => ⟨hdetached.colon hnone, hdetached.word hnone⟩⟩
  · rintro ⟨hmarker, hapart, hopen⟩
    exact ⟨hmarker, hapart, fun hnone => (hopen hnone).1, fun hnone => (hopen hnone).2⟩

end Format

end LineScript
