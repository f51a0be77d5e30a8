import LineScript.Program.Blocks
import LineScript.Proofs.Code.Emission
import Mathlib.Data.List.Induction

/-!
# Levels of code and open blocks

Two trackers follow the blocks of a program.  The reader keeps the open blocks as a stack and
lets a branch take the place of the branch that it follows.  The generator keeps one number and
one bit: how deep the next line is, and whether a terminator came last.  This file says when the
two agree, in programs without named blocks, which indent nothing.

The place where they can part is a branch that goes on with a statement while blocks are open.
The reader asks whether it follows the innermost open branch, the generator whether a terminator
stands directly before it, and the answers have to be opposite.  Main statements:
`levels_eq_enclosings_iff` says that this condition is exact, and `depth_eq_length_openBlocks`
that under it the depth is the number of open blocks after every line.

## Strategy

The relation between the trackers is a single equation: the depth of the generator is the length of
the stack.  `levelOf_eq_enclosing_iff` compares one line where it holds, and
`depth_layoutAfter_concat` says that each statement keeps it that is taken alike.  A line that is
not taken alike already has a wrong level.  So the induction along the program never has to say
anything about trackers that are out of step: it stops at the first such line, and that is what
makes the condition exact and not only sufficient.
-/

namespace LineScript

/-! ## What the two trackers know after some statements -/

/-- The blocks that are open after statements. -/
def openBlocksAfter (statements : List Statement) : OpenBlocks :=
  statements.foldl OpenBlocks.after []

/-- Whether a terminator comes last, arrows aside. -/
def endsWithTerminator (statements : List Statement) : Bool :=
  match (statements.filter fun statement => statement.arrow?.isNone).getLast? with
  | some (.blockEnd ..) => true
  | _ => false

@[simp] theorem openBlocksAfter_concat (statements : List Statement) (statement : Statement) :
    openBlocksAfter (statements ++ [statement]) =
      (openBlocksAfter statements).after statement := by
  simp [openBlocksAfter]

/-- The bit of the generator is what it is meant to be. -/
theorem afterEnd_layoutAfter (statements : List Statement) :
    (layoutAfter statements).afterEnd = endsWithTerminator statements := by
  induction statements using List.reverseRecOn with
  | nil => rfl
  | append_singleton before statement ih =>
      rw [layoutAfter_concat]
      cases statement with
      | line content => simp [Layout.after, endsWithTerminator, Statement.arrow?]
      | block name state => simp [Layout.after, endsWithTerminator, Statement.arrow?]
      | blockEnd state pictograph => simp [Layout.after, endsWithTerminator, Statement.arrow?]
      | arrow edge =>
          -- arrows leave the bit alone, and are not asked for
          have hfilter : endsWithTerminator (before ++ [.arrow edge]) =
              endsWithTerminator before := by
            simp [endsWithTerminator, Statement.arrow?]
          rw [hfilter, ← ih]
          rfl

/-- Whether a statement is the header of a named block. -/
def Statement.isNamedBlock : Statement → Bool
  | .block .. => true
  | _ => false

/-! ## The number of blocks around a line -/

namespace OpenBlocks

/-- Whether a branch takes the place of the innermost open block. -/
def isContinuedBy (blocks : OpenBlocks) (word : ActionWord) : Bool :=
  match blocks with
  | some previous :: _ => word.follows previous
  | _ => false

/-- The number of open blocks around a statement.  A header does not count the block that it
opens. -/
def enclosing (blocks : OpenBlocks) (statement : Statement) : Nat :=
  match statement.blockEvent? with
  | some (.opens _) => (blocks.after statement).length - 1
  | _ => blocks.length

theorem length_opened (blocks : OpenBlocks) (word : ActionWord) :
    (blocks.opened (some word)).length =
      if blocks.isContinuedBy word then blocks.length else blocks.length + 1 := by
  match blocks with
  | [] => rfl
  | none :: outer => rfl
  | some previous :: outer =>
      by_cases hfollows : word.follows previous = true
      · simp [opened, isContinuedBy, hfollows]
      · simp [opened, isContinuedBy, hfollows]

theorem ne_nil_of_isContinuedBy {blocks : OpenBlocks} {word : ActionWord}
    (hcontinued : blocks.isContinuedBy word = true) : blocks ≠ [] := by
  rintro rfl
  cases hcontinued

theorem continuesBlock_of_isContinuedBy {blocks : OpenBlocks} {word : ActionWord}
    (hcontinued : blocks.isContinuedBy word = true) : word.continuesBlock = true := by
  match blocks, hcontinued with
  | some previous :: _, hfollows => exact ActionWord.continuesBlock_of_follows hfollows

/-- The branch that a line takes the place of is not around it. -/
theorem enclosing_line (blocks : OpenBlocks) (content : Line) :
    blocks.enclosing (.line content) =
      if blocks.isContinuedBy content.action.word then blocks.length - 1 else blocks.length := by
  have hlength := blocks.length_opened content.action.word
  by_cases hopens : content.action.word.opensBlock = true
  · simp only [enclosing, after, Statement.blockEvent?, hopens, if_true, hlength]
    split <;> omega
  · have hcontinued : blocks.isContinuedBy content.action.word = false := by
      by_contra hcontinued
      exact hopens (ActionWord.opensBlock_of_continuesBlock
        (continuesBlock_of_isContinuedBy (by simpa using hcontinued)))
    simp [enclosing, Statement.blockEvent?, hopens, hcontinued]

/-- After a line there are as many open blocks as around it, and one more if it is a header. -/
theorem length_after_line (blocks : OpenBlocks) (content : Line) :
    (blocks.after (.line content)).length =
      if content.action.word.opensBlock then blocks.enclosing (.line content) + 1
      else blocks.enclosing (.line content) := by
  by_cases hopens : content.action.word.opensBlock = true
  · have hpos : 0 < (blocks.opened (some content.action.word)).length := by
      rw [length_opened]
      split
      next hcontinued => exact List.length_pos_iff.mpr (ne_nil_of_isContinuedBy hcontinued)
      next => exact Nat.succ_pos _
    simp only [after, enclosing, Statement.blockEvent?, hopens, if_true]
    omega
  · simp [after, enclosing, Statement.blockEvent?, hopens]

end OpenBlocks

/-- For each line among statements, the number of open blocks around it. -/
def enclosings (blocks : OpenBlocks) : List Statement → List Nat
  | [] => []
  | .line content :: rest =>
      blocks.enclosing (.line content) :: enclosings (blocks.after (.line content)) rest
  | statement :: rest => enclosings (blocks.after statement) rest

/-! ## One line -/

/-- The two trackers take a line after some statements alike.  Only a branch that goes on with a
statement while blocks are open can part them: it has to follow the innermost open branch exactly
if no terminator stands directly before it. -/
def TakenAlike (before : List Statement) (content : Line) : Prop :=
  content.action.word.continuesBlock = true → openBlocksAfter before ≠ [] →
    ((openBlocksAfter before).isContinuedBy content.action.word = true ↔
      endsWithTerminator before = false)

/-- As long as the depth is the number of open blocks, a line gets the level that it has in the
program exactly if the trackers take it alike. -/
theorem levelOf_eq_enclosing_iff {before : List Statement} (content : Line)
    (hdepth : (layoutAfter before).depth = (openBlocksAfter before).length) :
    (layoutAfter before).levelOf content.action.word =
        (openBlocksAfter before).enclosing (.line content) ↔ TakenAlike before content := by
  unfold TakenAlike Layout.levelOf
  rw [afterEnd_layoutAfter, hdepth, OpenBlocks.enclosing_line]
  by_cases hcontinues : content.action.word.continuesBlock = true
  · -- at the outermost level neither tracker can go back
    by_cases hopen : openBlocksAfter before = []
    · simp [hopen]
    · have hpos : 0 < (openBlocksAfter before).length := List.length_pos_iff.mpr hopen
      have hlt : (openBlocksAfter before).length - 1 ≠ (openBlocksAfter before).length := by omega
      -- the generator goes back unless the bit is set, the reader if the branch follows
      cases endsWithTerminator before <;>
        by_cases hcontinued : (openBlocksAfter before).isContinuedBy content.action.word = true <;>
        simp [hcontinues, hopen, hcontinued, hlt, hlt.symm]
  · have hcontinued : ¬ (openBlocksAfter before).isContinuedBy content.action.word = true :=
      fun h => hcontinues (OpenBlocks.continuesBlock_of_isContinuedBy h)
    simp [hcontinues, hcontinued]

/-! ## Whole programs -/

/-- The lines of statements are all taken alike. -/
def AllTakenAlike (statements : List Statement) : Prop :=
  ∀ before content after, statements = before ++ .line content :: after →
    TakenAlike before content

/-- No statement is the header of a named block. -/
abbrev Unnamed (statements : List Statement) : Prop :=
  ∀ statement ∈ statements, statement.isNamedBlock = false

/-- A statement other than a named block keeps the trackers in step if it is taken alike. -/
theorem depth_layoutAfter_concat {before : List Statement} {statement : Statement}
    (hdepth : (layoutAfter before).depth = (openBlocksAfter before).length)
    (hunnamed : statement.isNamedBlock = false)
    (halike : ∀ content, statement = .line content → TakenAlike before content) :
    (layoutAfter (before ++ [statement])).depth =
      (openBlocksAfter (before ++ [statement])).length := by
  rw [layoutAfter_concat, openBlocksAfter_concat]
  cases statement with
  | line content =>
      -- both trackers count one block more behind a header, from the same level
      have hlevel := (levelOf_eq_enclosing_iff content hdepth).mpr (halike content rfl)
      rw [OpenBlocks.length_after_line, ← hlevel]
      rfl
  | block name state => cases hunnamed
  | blockEnd state pictograph =>
      simp [Layout.after, OpenBlocks.after, Statement.blockEvent?, hdepth]
  | arrow edge => exact hdepth

/-- The lines of a list are its first statement, if that is a line, and the lines behind it. -/
theorem forall_line_cons {statement : Statement} {rest : List Statement}
    {holds : List Statement → Line → Prop} :
    (∀ front content back, statement :: rest = front ++ .line content :: back →
        holds front content) ↔
      (∀ content, statement = .line content → holds [] content) ∧
        ∀ front content back, rest = front ++ .line content :: back →
          holds (statement :: front) content := by
  refine ⟨fun h => ⟨fun content heq => h [] content rest (by rw [heq]; rfl),
    fun front content back heq => h (statement :: front) content back (by rw [heq]; rfl)⟩, ?_⟩
  rintro ⟨hhead, htail⟩ front content back heq
  cases front with
  | nil =>
      obtain ⟨hstatement, -⟩ := List.cons.inj heq
      exact hhead content hstatement
  | cons first front =>
      obtain ⟨rfl, hrest⟩ := List.cons.inj heq
      exact htail front content back hrest

/-- Lines after `before` keep the trackers in step as long as they are taken alike. -/
theorem levels_eq_enclosings_iff_from {before rest : List Statement}
    (hdepth : (layoutAfter before).depth = (openBlocksAfter before).length)
    (hunnamed : Unnamed rest) :
    (layoutAfter before).levels rest = enclosings (openBlocksAfter before) rest ↔
      ∀ front content after, rest = front ++ .line content :: after →
        TakenAlike (before ++ front) content := by
  induction rest generalizing before with
  | nil => simp [Layout.levels, enclosings]
  | cons statement rest ih =>
      obtain ⟨hhead, hrest⟩ := List.forall_mem_cons.mp hunnamed
      -- if this statement is taken alike, the trackers are in step for the rest
      have hnext (halike : ∀ content, statement = .line content → TakenAlike before content) :=
        ih (depth_layoutAfter_concat hdepth hhead halike) hrest
      simp only [layoutAfter_concat, openBlocksAfter_concat, List.append_assoc,
        List.singleton_append] at hnext
      rw [forall_line_cons, List.append_nil]
      cases statement with
      | line content =>
          -- the level of this line decides whether the hypothesis on the rest may be used
          rw [Layout.levels, enclosings, List.cons.injEq, levelOf_eq_enclosing_iff content hdepth]
          refine ⟨fun ⟨halike, htail⟩ => ?_, fun ⟨halike, htail⟩ => ?_⟩
          · have hlines : ∀ other, Statement.line content = .line other →
                TakenAlike before other := by
              rintro other ⟨⟩
              exact halike
            exact ⟨hlines, (hnext hlines).mp htail⟩
          · exact ⟨halike content rfl, (hnext halike).mpr htail⟩
      | block name state => cases hhead
      | blockEnd state pictograph =>
          simpa [Layout.levels, enclosings] using hnext (by simp)
      | arrow edge => simpa [Layout.levels, enclosings] using hnext (by simp)

/-- **The condition is exact.**  The lines of a program without named blocks get the levels that
they have in the program exactly if they are all taken alike. -/
theorem levels_eq_enclosings_iff {statements : List Statement} (hunnamed : Unnamed statements) :
    Layout.levels {} statements = enclosings [] statements ↔ AllTakenAlike statements := by
  have hstart : (layoutAfter []).depth = (openBlocksAfter []).length := rfl
  exact levels_eq_enclosings_iff_from hstart hunnamed

/-- Where all lines are taken alike, the depth after them is the number of open blocks. -/
theorem depth_eq_length_openBlocks {statements : List Statement} (hunnamed : Unnamed statements)
    (halike : AllTakenAlike statements) :
    (layoutAfter statements).depth = (openBlocksAfter statements).length := by
  induction statements using List.reverseRecOn with
  | nil => rfl
  | append_singleton before statement ih =>
      have hbefore : (layoutAfter before).depth = (openBlocksAfter before).length := by
        refine ih (fun other hmem => hunnamed other (List.mem_append_left _ hmem)) ?_
        rintro front content back rfl
        exact halike front content (back ++ [statement]) (by simp)
      refine depth_layoutAfter_concat hbefore (hunnamed statement (by simp)) ?_
      rintro content rfl
      exact halike before content [] rfl

end LineScript
