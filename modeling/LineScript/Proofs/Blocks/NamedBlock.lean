import LineScript.Proofs.Blocks.Levels
import LineScript.Proofs.Blocks.Tree
import LineScript.Proofs.Code.Indentation

/-!
# Named blocks in the code

A named block has no code of its own and indents nothing.  Its terminator is a terminator like any
other, though, and takes the lines behind it one level back.  So a named block around plain lines
shows in the code only by its terminator, and the main statement says exactly when it does
(`code_namedBlock_eq_iff`): the next line must be at a level that one more terminator changes.  At
the outermost level there is none, so that a named block shows only where other blocks are open.

## Strategy

The programs with and without the block have the same lines, so that only levels are compared
(`codeOf_eq_iff`).  Two generators run side by side behind the block, one of them a level deeper
than the other.

* Statements without code are run in one step: between two lines only their number of terminators
  and the last of them that sets or clears the bit count (`foldl_after_of_no_line`).
* At the first line the two levels are equal exactly if the line absorbs the terminator
  (`levelOf_of_end`).  From there on the generators are in the same state.
* If it does not, the distance is kept or shrinks, and never turns round (`levels_le`).  Levels that
  are ordered line by line give equal code only if they are equal, or if the indent is empty.
-/

namespace LineScript

/-! ## Levels without a terminator -/

/-- The layout is like another one, and not deeper. -/
structure Layout.Shallower (layout layout' : Layout) : Prop where
  depth : layout.depth ≤ layout'.depth
  afterEnd : layout.afterEnd = layout'.afterEnd

/-- Behind a line only its level is left of what came before. -/
theorem Layout.shallower_after_line {layout layout' : Layout} {content : Line}
    (hlevel : layout.levelOf content.action.word ≤ layout'.levelOf content.action.word) :
    (layout.after (.line content)).Shallower (layout'.after (.line content)) := by
  refine ⟨?_, rfl⟩
  simp only [Layout.after]
  split <;> omega

namespace Layout.Shallower

variable {layout layout' : Layout}

theorem levelOf_le (hlayout : layout.Shallower layout') (word : ActionWord) :
    layout.levelOf word ≤ layout'.levelOf word := by
  have hdepth := hlayout.depth
  rw [levelOf, levelOf, hlayout.afterEnd]
  split <;> omega

/-- A statement keeps the distance or makes it smaller. -/
theorem after (hlayout : layout.Shallower layout') (statement : Statement) :
    (layout.after statement).Shallower (layout'.after statement) := by
  have hdepth := hlayout.depth
  cases statement with
  | line content => exact shallower_after_line (hlayout.levelOf_le _)
  | block name state => exact ⟨hdepth, rfl⟩
  | blockEnd state pictograph => exact ⟨Nat.sub_le_sub_right hdepth 1, rfl⟩
  | arrow edge => exact hlayout

theorem levels_le (hlayout : layout.Shallower layout') (statements : List Statement) :
    List.Forall₂ (· ≤ ·) (layout.levels statements) (layout'.levels statements) := by
  induction statements generalizing layout layout' with
  | nil => exact .nil
  | cons statement rest ih =>
      have hrest := ih (hlayout.after statement)
      cases statement with
      | line content => exact .cons (hlayout.levelOf_le _) hrest
      | block name state => exact hrest
      | blockEnd state pictograph => exact hrest
      | arrow edge => exact hrest

end Layout.Shallower

/-! ## What comes before the next line -/

/-- Whether a statement is a terminator. -/
def Statement.isTerminator : Statement → Bool
  | .blockEnd .. => true
  | _ => false

/-- The last statement, arrows aside. -/
def lastSaid (statements : List Statement) : Option Statement :=
  (statements.filter fun statement => statement.arrow?.isNone).getLast?

/-- Without lines only the number of terminators matters, and whether one of them comes last. -/
theorem foldl_after_of_no_line {gap : List Statement} (layout : Layout)
    (hgap : ∀ statement ∈ gap, statement.line? = none) :
    gap.foldl Layout.after layout =
      ⟨layout.depth - gap.countP Statement.isTerminator,
        (lastSaid gap).elim layout.afterEnd Statement.isTerminator⟩ := by
  induction gap using List.reverseRecOn with
  | nil => rfl
  | append_singleton before statement ih =>
      have hbefore := ih fun other hmem => hgap other (List.mem_append_left _ hmem)
      have hline := hgap statement (List.mem_append_right _ List.mem_cons_self)
      rw [List.foldl_append, hbefore, lastSaid, lastSaid, List.countP_append, List.filter_append]
      cases statement with
      | line content => cases hline
      | block name state =>
          simp [Layout.after, Statement.isTerminator, Statement.arrow?]
      -- a terminator counts, and is the last word on the bit
      | blockEnd state pictograph =>
          simp [Layout.after, Statement.isTerminator, Statement.arrow?, Nat.sub_sub]
      | arrow edge => simp [Layout.after, Statement.isTerminator, Statement.arrow?]

theorem levels_of_no_line {gap : List Statement} (layout : Layout)
    (hgap : ∀ statement ∈ gap, statement.line? = none) : layout.levels gap = [] := by
  induction gap generalizing layout with
  | nil => rfl
  | cons statement rest ih =>
      obtain ⟨hhead, hrest⟩ := List.forall_mem_cons.mp hgap
      cases statement with
      | line content => cases hhead
      | block name state => exact ih _ hrest
      | blockEnd state pictograph => exact ih _ hrest
      | arrow edge => exact ih _ hrest

/-- Statements without a line, or a first line and what comes before it and behind it. -/
theorem no_line_or_first_line (statements : List Statement) :
    (∀ statement ∈ statements, statement.line? = none) ∨
      ∃ gap content rest, statements = gap ++ .line content :: rest ∧
        ∀ statement ∈ gap, statement.line? = none := by
  induction statements with
  | nil => exact .inl (by simp)
  | cons statement rest ih =>
      cases hline : statement.line? with
      | some content =>
          refine .inr ⟨[], content, rest, ?_, by simp⟩
          cases statement <;> cases hline
          rfl
      | none =>
          obtain hnone | ⟨gap, content, more, rfl, hgap⟩ := ih
          · exact .inl (List.forall_mem_cons.mpr ⟨hline, hnone⟩)
          · exact .inr ⟨statement :: gap, content, more, rfl,
              List.forall_mem_cons.mpr ⟨hline, hgap⟩⟩

/-! ## One more terminator -/

/-- One more terminator at some depth does not change the level of a line behind others.  Either no
depth is left for it, or the line goes on with a statement and goes back by itself in its place. -/
def AbsorbsEnd (depth : Nat) (gap : List Statement) (content : Line) : Prop :=
  depth ≤ gap.countP Statement.isTerminator ∨
    content.action.word.continuesBlock = true ∧
      (lastSaid gap = none ∨
        (lastSaid gap).any Statement.isNamedBlock = true ∧
          depth ≤ gap.countP Statement.isTerminator + 1)

/-- Behind one more terminator a line is not deeper, and it is at the same level exactly if the
terminator is absorbed. -/
theorem levelOf_of_end (depth : Nat) {gap : List Statement} (content : Line)
    (hgap : ∀ statement ∈ gap, statement.line? = none) :
    let level := (gap.foldl Layout.after ⟨depth - 1, true⟩).levelOf content.action.word
    let level' := (gap.foldl Layout.after ⟨depth, false⟩).levelOf content.action.word
    level ≤ level' ∧ (level = level' ↔ AbsorbsEnd depth gap content) := by
  simp only [foldl_after_of_no_line _ hgap, Layout.levelOf, AbsorbsEnd]
  generalize gap.countP Statement.isTerminator = count
  by_cases hcontinues : content.action.word.continuesBlock = true
  · -- what stands last in the gap has set the bit for both generators
    cases hlast : lastSaid gap with
    | none =>
        simp only [hcontinues, Option.elim_none]
        simp
        omega
    | some last =>
        obtain ⟨hmem, hsaid⟩ := List.mem_filter.mp (List.mem_of_getLast? hlast)
        cases last with
        | line other => cases hgap _ hmem
        | arrow edge => cases hsaid
        | block name state =>
            simp [hcontinues, Statement.isTerminator, Statement.isNamedBlock]
            omega
        | blockEnd state pictograph =>
            simp [hcontinues, Statement.isTerminator, Statement.isNamedBlock]
            omega
  · simp [hcontinues]
    omega

theorem levels_first_line {gap : List Statement} (layout : Layout) (content : Line)
    (rest : List Statement) (hgap : ∀ statement ∈ gap, statement.line? = none) :
    layout.levels (gap ++ .line content :: rest) =
      (gap.foldl Layout.after layout).levelOf content.action.word ::
        ((gap.foldl Layout.after layout).after (.line content)).levels rest := by
  rw [Layout.levels_append, levels_of_no_line layout hgap, List.nil_append, Layout.levels]

/-- One more terminator makes no line deeper, and changes no level exactly if the first line absorbs
it. -/
theorem levels_of_end_first_line (depth : Nat) {gap : List Statement} (content : Line)
    (rest : List Statement) (hgap : ∀ statement ∈ gap, statement.line? = none) :
    let levels := Layout.levels ⟨depth - 1, true⟩ (gap ++ .line content :: rest)
    let levels' := Layout.levels ⟨depth, false⟩ (gap ++ .line content :: rest)
    List.Forall₂ (· ≤ ·) levels levels' ∧ (levels = levels' ↔ AbsorbsEnd depth gap content) := by
  obtain ⟨hle, heq⟩ := levelOf_of_end depth content hgap
  simp only [levels_first_line _ content rest hgap]
  refine ⟨.cons hle ((Layout.shallower_after_line hle).levels_le rest), ?_⟩
  rw [← heq]
  refine ⟨fun hlevels => (List.cons.inj hlevels).1, fun hlevel => ?_⟩
  simp only [Layout.after, hlevel]

/-- One more terminator in front of statements makes none of their lines deeper, and changes no
level exactly if their first line, if there is one, absorbs it. -/
theorem levels_of_end (depth : Nat) (statements : List Statement) :
    let levels := Layout.levels ⟨depth - 1, true⟩ statements
    let levels' := Layout.levels ⟨depth, false⟩ statements
    List.Forall₂ (· ≤ ·) levels levels' ∧
      (levels = levels' ↔ ∀ gap content rest, statements = gap ++ .line content :: rest →
        (∀ statement ∈ gap, statement.line? = none) → AbsorbsEnd depth gap content) := by
  obtain hnone | ⟨gap, content, rest, rfl, hgap⟩ := no_line_or_first_line statements
  · simp only [levels_of_no_line _ hnone]
    refine ⟨.nil, iff_of_true trivial ?_⟩
    rintro gap content rest rfl
    have hline := hnone (.line content) (List.mem_append_right _ List.mem_cons_self)
    cases hline
  · obtain ⟨hle, heq⟩ := levels_of_end_first_line depth content rest hgap
    refine ⟨hle, fun hlevels other otherContent otherRest hother hotherGap => ?_, fun hall =>
      heq.mpr (hall gap content rest rfl hgap)⟩
    rw [hother] at hlevels
    exact (levels_of_end_first_line depth otherContent otherRest hotherGap).2.mp hlevels

/-! ## Named blocks -/

/-- Lines that open nothing are all as deep as the layout. -/
theorem levels_of_plain {body : List Line}
    (hbody : ∀ content ∈ body, content.action.word.opensBlock = false) (layout : Layout) :
    layout.levels (body.map .line) = body.map fun _ => layout.depth := by
  induction body generalizing layout with
  | nil => rfl
  | cons content rest ih =>
      obtain ⟨hplain, hrest⟩ := List.forall_mem_cons.mp hbody
      have hfirst := ActionWord.continuesBlock_eq_false_of_plain hplain
      rw [List.map_cons, Layout.levels, ih hrest, Layout.after_plain hplain,
        Layout.levelOf_of_not_continuesBlock hfirst, List.map_cons]

/-- Lines that open nothing leave the depth as it is. -/
theorem foldl_after_of_plain {body : List Line} (hne : body ≠ [])
    (hbody : ∀ content ∈ body, content.action.word.opensBlock = false) (layout : Layout) :
    (body.map Statement.line).foldl Layout.after layout = ⟨layout.depth, false⟩ := by
  induction body generalizing layout with
  | nil => exact absurd rfl hne
  | cons content rest ih =>
      obtain ⟨hplain, hrest⟩ := List.forall_mem_cons.mp hbody
      have hfirst := ActionWord.continuesBlock_eq_false_of_plain hplain
      rw [List.map_cons, List.foldl_cons, Layout.after_plain hplain,
        Layout.levelOf_of_not_continuesBlock hfirst]
      cases rest with
      | nil => rfl
      | cons => exact ih (List.cons_ne_nil _ _) hrest _

variable {front back : List Statement} {body : List Line} {name : String}
    {state endState : LineState}
  {pictograph : Option String}

/-- **Where a named block shows.**  A named block around lines that open nothing leaves the code of
a program alone exactly if there is no code, or levels do not show, or the first line behind the
block, if there is one, absorbs its terminator. -/
theorem code_namedBlock_eq_iff (settings : Settings) {program program' : Program}
    (hne : body ≠ []) (hbody : ∀ content ∈ body, content.action.word.opensBlock = false)
    (hblock : program.statements =
      front ++ .block name state :: (body.map .line ++ .blockEnd endState pictograph :: back))
    (hplain : program'.statements = front ++ (body.map .line ++ back)) :
    (program.generate settings).code = (program'.generate settings).code ↔
      (program'.generate settings).code.isOk = false ∨ settings.indent = "" ∨
        ∀ gap content rest, back = gap ++ .line content :: rest →
          (∀ statement ∈ gap, statement.line? = none) →
          AbsorbsEnd (layoutAfter front).depth gap content := by
  have hlines : program.statements.filterMap Statement.line? =
      program'.statements.filterMap Statement.line? := by
    rw [hblock, hplain]
    simp [List.filterMap_append, List.filterMap_cons, Statement.line?]
  -- up to the end of the block the levels are the same
  have hlevels : Layout.levels {} program.statements = Layout.levels {} front ++
      ((body.map fun _ => (layoutAfter front).depth) ++
        Layout.levels ⟨(layoutAfter front).depth - 1, true⟩ back) := by
    have hheader (layout : Layout) (rest : List Statement) :
        layout.levels (.block name state :: rest) =
          Layout.levels ⟨layout.depth, false⟩ rest := rfl
    rw [hblock, Layout.levels_append, ← layoutAfter, hheader, Layout.levels_append,
      levels_of_plain hbody, foldl_after_of_plain hne hbody]
    rfl
  have hlevels' : Layout.levels {} program'.statements = Layout.levels {} front ++
      ((body.map fun _ => (layoutAfter front).depth) ++
        Layout.levels ⟨(layoutAfter front).depth, false⟩ back) := by
    rw [hplain, Layout.levels_append, ← layoutAfter, Layout.levels_append, levels_of_plain hbody,
      foldl_after_of_plain hne hbody]
  -- behind the end of the block one generator is a level deeper, until they meet
  obtain ⟨hle, heq⟩ := levels_of_end (layoutAfter front).depth back
  have hall : List.Forall₂ (· ≤ ·) (Layout.levels {} program.statements)
      (Layout.levels {} program'.statements) := by
    rw [hlevels, hlevels']
    exact List.rel_append (List.forall₂_refl _) (List.rel_append (List.forall₂_refl _) hle)
  -- code differs as soon as levels do, the lines being the same
  rw [code_generate, code_generate, codeOf_eq_iff hlines hall, hlevels, hlevels',
    List.append_cancel_left_eq, List.append_cancel_left_eq, heq]

/-- In the branch of `try` a named block does not show if the branch ends behind it. -/
theorem code_namedBlock_eq_in_branch :
    let front := [Statement.line { action := .tryBlock }]
    let body := [Line.mk .pass .continued none 0 {}]
    let back := [.blockEnd .continued none, Statement.line { action := .print none }]
    let block := front ++ .block "b" .continued ::
      (body.map .line ++ .blockEnd .continued none :: back)
    let plain := front ++ (body.map .line ++ back)
    body ≠ [] ∧ (∀ content ∈ body, content.action.word.opensBlock = false) ∧
      ((Program.mk [⟨[⟨block⟩]⟩]).generate default).code =
        ((Program.mk [⟨[⟨plain⟩]⟩]).generate default).code := by
  intro front body back block plain
  have hne : body ≠ [] := List.cons_ne_nil _ _
  have hbody : ∀ content ∈ body, content.action.word.opensBlock = false := by
    decide
  have habsorbs : ∀ gap content rest, back = gap ++ .line content :: rest →
      (∀ statement ∈ gap, statement.line? = none) →
      AbsorbsEnd (layoutAfter front).depth gap content := by
    intro gap content rest hback hgap
    left
    match gap, hback with
    | [], hback =>
        obtain ⟨hhead, -⟩ := List.cons.inj hback
        cases hhead
    | [_], hback =>
        obtain ⟨rfl, -⟩ := List.cons.inj hback
        decide
    | _ :: _ :: _, hback =>
        obtain ⟨-, hrest⟩ := List.cons.inj hback
        obtain ⟨rfl, -⟩ := List.cons.inj hrest
        exact absurd (hgap _ (List.mem_cons_of_mem _ List.mem_cons_self)) (by decide)
  have hblock : (Program.mk [⟨[⟨block⟩]⟩]).statements = front ++ .block "b" .continued ::
      (body.map .line ++ .blockEnd .continued none :: back) := rfl
  have hplain : (Program.mk [⟨[⟨plain⟩]⟩]).statements = front ++ (body.map .line ++ back) := rfl
  refine ⟨hne, hbody, ?_⟩
  exact (code_namedBlock_eq_iff default hne hbody hblock hplain).mpr (.inr (.inr habsorbs))

/-- In the body of a function the terminator of a named block ends the function. -/
theorem not_forall_code_namedBlock_eq :
    ¬ ∀ (settings : Settings) (front back : List Statement) (body : List Line) (name : String)
      (state endState : LineState) (pictograph : Option String) (program program' : Program),
      body ≠ [] → (∀ content ∈ body, content.action.word.opensBlock = false) →
      (∀ content, back.head? = some (.line content) →
        content.action.word.continuesBlock = false) →
      program.statements =
        front ++ .block name state :: (body.map .line ++ .blockEnd endState pictograph :: back) →
      program'.statements = front ++ (body.map .line ++ back) →
      (program.generate settings).code = (program'.generate settings).code := by
  intro hall
  let front := [Statement.line { action := .define "f" [] }]
  let body := [Line.mk .pass .continued none 0 {}]
  let back := [Statement.line { action := .print none }]
  let block := front ++ .block "b" .continued ::
    (body.map .line ++ .blockEnd .continued none :: back)
  let plain := front ++ (body.map .line ++ back)
  have hcontinues : ∀ content, back.head? = some (.line content) →
      content.action.word.continuesBlock = false := by
    rintro content ⟨⟩
    rfl
  have heq := hall default front back body "b" .continued .continued none ⟨[⟨[⟨block⟩]⟩]⟩
    ⟨[⟨[⟨plain⟩]⟩]⟩ (List.cons_ne_nil _ _) (by decide) hcontinues rfl rfl
  have hcode : ((Program.mk [⟨[⟨block⟩]⟩]).generate default).code.toOption =
      some "def f():\n    pass\nprint()" := by
    decide +kernel
  have hcode' : ((Program.mk [⟨[⟨plain⟩]⟩]).generate default).code.toOption =
      some "def f():\n    pass\n    print()" := by
    decide +kernel
  rw [heq, hcode'] at hcode
  exact absurd hcode (by decide +kernel)

end LineScript
