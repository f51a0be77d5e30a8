import LineScript.Proofs.Program.ActionLine
import LineScript.Proofs.Statement.Forms

/-!
# The colon behind a header

The header of a block may end with a colon or not.  There are two ways to such a line: behind
arguments the colon is taken off again where they are read, and behind a single word the line is a
header of one word.  The second way only knows the branches that never have arguments, so that it
makes the name of a block out of a branch whose argument was left out.

Main statement: with a colon at its end the header of a block is read as the same action, and only
the branch for exceptions without an argument is read as a named block (`readStatement_glueColon`).

## Strategy

The line is compared with itself without the colon (`glueColon`), and two cases are distinguished.

* **With arguments** the colon is behind the last of them.  Each header takes it off in its own
  place: from the words of a condition, of an iterable, of the name of an exception, or from all
  parameters (`readAction_glueColon`).  That taking it off gives the words as they were needs that
  they had no colon at their end to begin with (`Uncolonned`).
* **Without arguments** the colon is behind the word of the header itself, and the line takes the
  other way.  `ofHeader?_of_readAction_nil` says that this way knows every header that can stand
  alone, except the one for exceptions.

The known names and the open blocks behind the line come along, since they depend on the statement
only.
-/

namespace LineScript

/-- Words with a colon glued to the last of them. -/
def glueColon : List String → List String
  | [] => []
  | [last] => [last ++ ":"]
  | word :: next :: rest => word :: glueColon (next :: rest)

variable {known : KnownNames} {word name : String} {args : List String}

/-! ## Taking the colon off -/

@[simp] theorem withoutColon?_append_colon (word : String) :
    withoutColon? (word ++ ":") = some word := by
  have hlist : (word ++ ":").toList = word.toList ++ [':'] := String.toList_append
  rw [withoutColon?, hlist, List.getLast?_concat, if_pos rfl, List.dropLast_concat,
    String.ofList_toList]

@[simp] theorem withoutColons_append_colon (word : String) :
    withoutColons (word ++ ":") = withoutColons word := by
  have hlist : (word ++ ":").toList = word.toList ++ [':'] := String.toList_append
  rw [withoutColons, hlist, List.reverse_concat, List.dropWhile_cons_of_pos (by decide)]
  rfl

theorem glueColon_concat (words : List String) (last : String) :
    glueColon (words ++ [last]) = words ++ [last ++ ":"] := by
  induction words with
  | nil => rfl
  | cons word rest ih =>
      cases rest with
      | nil => rfl
      | cons next more => exact congrArg (word :: ·) ih

/-- The last of some words is neither empty nor a word with a colon behind it. -/
def Uncolonned (words : List String) : Prop :=
  ∀ last ∈ words.getLast?, last ≠ "" ∧ withoutColon? last = none

theorem Uncolonned.tail {words : List String} (hplain : Uncolonned (word :: words)) :
    Uncolonned words := by
  intro last hlast
  apply hplain last
  cases words with
  | nil => cases hlast
  | cons next rest => simpa using hlast

theorem stripTrailingColon_of_uncolonned (hplain : Uncolonned args) :
    stripTrailingColon args = args := by
  have hnone : args.getLast?.bind withoutColon? = none :=
    Option.bind_eq_none_iff.mpr fun last hlast => (hplain last hlast).2
  rw [stripTrailingColon, hnone]

theorem stripTrailingColon_glueColon (hplain : Uncolonned args) :
    stripTrailingColon (glueColon args) = args := by
  induction args using List.reverseRecOn with
  | nil => rfl
  | append_singleton front last _ =>
      have hne : last ≠ "" := (hplain last (by simp)).1
      rw [glueColon_concat, stripTrailingColon, List.getLast?_concat]
      simp [hne]

theorem map_withoutColons_glueColon (args : List String) :
    (glueColon args).map withoutColons = args.map withoutColons := by
  induction args using List.reverseRecOn with
  | nil => rfl
  | append_singleton front last _ => rw [glueColon_concat]; simp

/-! ## Reading with the colon -/

/-- A word with a colon behind it is no marker and no terminator. -/
theorem ofMarker?_append_colon (word : String) :
    ArrowDirection.ofMarker? (word ++ ":") = none := by
  have hcolon := withoutColon?_append_colon word
  unfold ArrowDirection.ofMarker?
  split
  next heq => rw [heq] at hcolon; cases hcolon
  next heq => rw [heq] at hcolon; cases hcolon
  next => rfl

theorem isBlockEnd_append_colon (word : String) : isBlockEnd (word ++ ":") = false := by
  rw [Bool.eq_false_iff]
  intro hend
  have hcolon := withoutColon?_append_colon word
  simp only [isBlockEnd, List.contains_iff_mem, List.mem_cons, List.not_mem_nil, or_false] at hend
  rcases hend with heq | heq | heq | heq | heq
  all_goals
    rw [heq] at hcolon
    cases hcolon

theorem ofMarker?_of_mem_glueColon
    (hmarker : ∀ arg ∈ args, ArrowDirection.ofMarker? arg = none) :
    ∀ arg ∈ glueColon args, ArrowDirection.ofMarker? arg = none := by
  induction args using List.reverseRecOn with
  | nil => nofun
  | append_singleton front last _ =>
      rw [glueColon_concat]
      intro arg hmem
      rcases List.mem_append.mp hmem with hfront | hlast
      · exact hmarker arg (List.mem_append_left _ hfront)
      · rw [List.mem_singleton.mp hlast]
        exact ofMarker?_append_colon last

theorem readFor_glueColon (hplain : Uncolonned args) :
    readFor known (glueColon args) = readFor known args := by
  match args with
  | [] | [_] | [_, _] => rfl
  | var :: inWord :: first :: rest =>
      -- the colon is behind the iterable, which is what it is taken off from
      have hiterable : Uncolonned (first :: rest) := hplain.tail.tail
      obtain ⟨next, more, hglued⟩ : ∃ next more, glueColon (first :: rest) = next :: more := by
        cases rest with
        | nil => exact ⟨_, _, rfl⟩
        | cons => exact ⟨_, _, rfl⟩
      have hstrip := stripTrailingColon_glueColon hiterable
      rw [hglued] at hstrip
      rw [glueColon, glueColon, hglued, readFor, readFor, hstrip,
        stripTrailingColon_of_uncolonned hiterable]

/-- The arguments of a header may have a colon behind them. -/
theorem readAction_glueColon {action : ActionWord} (hopens : action.opensBlock = true)
    (hplain : Uncolonned args) :
    readAction known action (glueColon args) = readAction known action args := by
  -- a condition is read without its colon, whether it has one or not
  have hcondition : readCondition known (glueColon args) = readCondition known args := by
    rw [readCondition, readCondition, stripTrailingColon_glueColon hplain,
      stripTrailingColon_of_uncolonned hplain]
  cases action with
  | ifBranch | elifBranch | whileLoop => rw [readAction, readAction, hcondition]
  | forLoop => exact readFor_glueColon hplain
  | define => rw [readAction, readAction, readDefinition, map_withoutColons_glueColon]; rfl
  | exceptBlock =>
      rw [readAction, readAction, stripTrailingColon_glueColon hplain,
        stripTrailingColon_of_uncolonned hplain]
  | elseBranch | tryBlock | finallyBlock => rfl
  | print | set | call | returnValue | breakLoop | continueLoop | pass | global | arith =>
      cases hopens

/-! ## Headers of one word -/

/-- Without arguments only four headers are read, and three of them are also headers of one word. -/
theorem ofHeader?_of_readAction_nil {action : ActionWord} {act : Action}
    (hword : ActionWord.ofSpelling? word = some action) (hopens : action.opensBlock = true)
    (hexcept : action ≠ .exceptBlock) (hread : readAction known action [] = .ok act) :
    ActionWord.ofHeader? word = some act.word := by
  unfold ActionWord.ofHeader?
  rw [hword]
  cases action with
  | elseBranch | tryBlock | finallyBlock =>
      cases hread
      rfl
  | define | ifBranch | elifBranch | whileLoop | forLoop => cases hread
  | exceptBlock => exact absurd rfl hexcept
  | print | set | call | returnValue | breakLoop | continueLoop | pass | global | arith =>
      cases hopens

theorem ne_empty_of_ofSpelling? {action : ActionWord}
    (hword : ActionWord.ofSpelling? word = some action) : word ≠ "" := by
  rintro rfl
  cases hword

theorem headerName?_of_ofSpelling? {token : LineToken} {action : ActionWord}
    (hword : ActionWord.ofSpelling? token.action = some action) : token.headerName? = none := by
  rw [LineToken.headerName?, ActionWord.withoutColon?_of_ofSpelling? hword, ite_self]

/-- A line that begins with the word of an action, and has no arrow, is read as an action. -/
theorem exists_readAction_of_readStatement {token : LineToken} {action : ActionWord}
    {statement : Statement} (hword : ActionWord.ofSpelling? token.action = some action)
    (hmarker : ∀ arg ∈ token.args, ArrowDirection.ofMarker? arg = none)
    (hread : readStatement known token = .ok statement) :
    ∃ act, readAction known action token.args = .ok act ∧ statement = token.statement act := by
  have hcolon := ActionWord.withoutColon?_of_ofSpelling? hword
  cases readStatement_eq_ok_iff.mp hread with
  | blockEnd hend =>
      rw [(ActionWord.isIdentifier_of_ofSpelling? hword).2.2] at hend
      cases hend
  | arrow hend hedge =>
      rw [readArrow?_of_ofMarker? hmarker] at hedge
      cases hedge
  -- the spelling of an action has no colon, and so is no header of one word
  | branch hend hargs hname =>
      rw [hname] at hcolon
      cases hcolon
  | namedBlock hend hargs hname =>
      rw [hname] at hcolon
      cases hcolon
  | action hend hedge hheader hother haction =>
      rw [hword, Option.some.injEq] at hother
      subst hother
      exact ⟨_, haction, rfl⟩

/-! ## Lines with the colon -/

/-- **The colon behind a header is optional.**  If a line that begins with the word of a header is
a statement, it is so with a colon glued to its last word too: it has the same action, declares the
same names and does the same to the open blocks.  Only the branch for exceptions that names none is
read as a named block with the colon. -/
theorem readStatement_glueColon {plain colon : LineToken} {action : ActionWord}
    {statement : Statement} (hword : ActionWord.ofSpelling? plain.action = some action)
    (hopens : action.opensBlock = true)
    (hmarker : ∀ arg ∈ plain.args, ArrowDirection.ofMarker? arg = none)
    (hplain : Uncolonned plain.args)
    (hglued : colon.action :: colon.args = glueColon (plain.action :: plain.args))
    (hread : readStatement known plain = .ok statement) :
    ∃ act, statement = plain.statement act ∧
      (¬ (action = .exceptBlock ∧ plain.args = []) →
        readStatement known colon = .ok (colon.statement act) ∧
          (colon.statement act).declares = statement.declares ∧
          ∀ blocks : OpenBlocks, blocks.after (colon.statement act) = blocks.after statement) ∧
      (action = .exceptBlock ∧ plain.args = [] →
        readStatement known colon = .ok (.block plain.action colon.state)) := by
  obtain ⟨act, hact, rfl⟩ := exists_readAction_of_readStatement hword hmarker hread
  refine ⟨act, rfl, ?_⟩
  cases hargs : plain.args with
  | nil =>
      -- the colon is behind the word of the header itself
      rw [hargs, glueColon, List.cons.injEq] at hglued
      obtain ⟨hcolon, hnil⟩ := hglued
      have hend : isBlockEnd colon.action = false := hcolon ▸ isBlockEnd_append_colon _
      have hname : withoutColon? colon.action = some plain.action :=
        hcolon ▸ withoutColon?_append_colon _
      rw [hargs] at hact
      refine ⟨fun hother => ⟨?_, rfl, fun _ => rfl⟩, fun ⟨hexcept, _⟩ => ?_⟩
      · have hne : action ≠ .exceptBlock := fun heq => hother ⟨heq, rfl⟩
        exact readStatement_eq_ok_iff.mpr
          (.branch hend hnil hname (ofHeader?_of_readAction_nil hword hopens hne hact))
      · have hnone : ActionWord.ofHeader? plain.action = none := by
          rw [ActionWord.ofHeader?, hword, hexcept]
        exact readStatement_eq_ok_iff.mpr
          (.namedBlock hend hnil hname hnone (ne_empty_of_ofSpelling? hword))
  | cons first rest =>
      rw [hargs, glueColon, List.cons.injEq] at hglued
      obtain ⟨hcolon, hglued⟩ := hglued
      -- the last argument has the colon, and is no marker either
      have hcolonMarker := ofMarker?_of_mem_glueColon hmarker
      have hcolonAct : readAction known action (glueColon plain.args) = .ok act :=
        (readAction_glueColon hopens hplain).trans hact
      rw [hargs, ← hglued] at hcolonMarker hcolonAct
      refine ⟨fun _ => ⟨?_, rfl, fun _ => rfl⟩, fun ⟨_, hnil⟩ => absurd hnil (List.cons_ne_nil _ _)⟩
      rw [← hcolon] at hword
      have hend : isBlockEnd colon.action = false :=
        (ActionWord.isIdentifier_of_ofSpelling? hword).2.2
      exact readStatement_eq_ok_iff.mpr
        (.action hend (readArrow?_of_ofMarker? hcolonMarker) (headerName?_of_ofSpelling? hword)
          hword hcolonAct)

/-- A definition with a parameter has the same action with the colon. -/
theorem readStatement_define_glueColon :
    Uncolonned ["f", "a"] ∧
      readStatement .empty ⟨"def", ["f", "a"], .continued, none, 1, {}⟩ =
        .ok (.line ⟨.define "f" ["a"], .continued, none, 1, {}⟩) ∧
      readStatement .empty ⟨"def", ["f", "a:"], .continued, none, 1, {}⟩ =
        .ok (.line ⟨.define "f" ["a"], .continued, none, 1, {}⟩) := by
  have hplain : Uncolonned ["f", "a"] := by
    intro last hlast
    cases hlast
    exact ⟨by decide, by decide⟩
  have hread : readStatement .empty ⟨"def", ["f", "a"], .continued, none, 1, {}⟩ =
      .ok (.line ⟨.define "f" ["a"], .continued, none, 1, {}⟩) := rfl
  have hdefine : ActionWord.ofSpelling? "def" = some .define := rfl
  let colon : LineToken := ⟨"def", ["f", "a:"], .continued, none, 1, {}⟩
  have hglued : colon.action :: colon.args = glueColon ["def", "f", "a"] := by decide
  obtain ⟨act, hact, hother, -⟩ :=
    readStatement_glueColon hdefine rfl (by decide) hplain hglued hread
  cases hact
  exact ⟨hplain, hread, (hother (by decide)).1⟩

/-- The branch for all exceptions is not read as a branch with the colon: it names a block, which
declares a name and is one more open block. -/
theorem readStatement_except_glueColon :
    readStatement .empty ⟨"except", [], .continued, none, 1, {}⟩ =
        .ok (.line ⟨.exceptBlock none, .continued, none, 1, {}⟩) ∧
      glueColon ["except"] = ["except:"] ∧
      readStatement .empty ⟨"except:", [], .continued, none, 1, {}⟩ =
        .ok (.block "except" .continued) ∧
      (Statement.block "except" .continued).declares ≠
        (Statement.line ⟨.exceptBlock none, .continued, none, 1, {}⟩).declares ∧
      OpenBlocks.after [some .tryBlock] (.block "except" .continued) ≠
        OpenBlocks.after [some .tryBlock]
          (.line ⟨.exceptBlock none, .continued, none, 1, {}⟩) :=
  ⟨rfl, rfl, rfl, by decide, by decide⟩

end LineScript
