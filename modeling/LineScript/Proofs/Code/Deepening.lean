import LineScript.Proofs.Code.Emission
import Mathlib.Data.List.Chain

/-!
# One level at a time

There is code for programs whose blocks do not balance, and for statements that no source has.  A
terminator may close nothing, a branch may go on with no statement, and a header may have no lines
behind it.  In none of these programs does the code jump: a line is deeper than the line before it
only if that one is the header of a block, and then by one level.

Main statement: this holds for the lines of every code, those of the helper function among them
(`isChain_deepens_codeLines`).

## Strategy

The invariant is that the depth of the layout bounds the level of the next line.  A line leaves a
depth of its own level behind it, or one more if it is a header (`Layout.depth_after_line`), and no
other statement adds to the depth (`Layout.depth_after_le`).  So `isChain_deepens_emit` carries two
things along the statements: the chain of the lines that come out, and the bound on the first of
them, which is what the line in front of it needs.

Which lines are headers is not read off their texts, where a colon at the end might come from an
expression.  Each line of code is paired with the answer for the action that it is the code of; that
headers do end with a colon is proved for the actions (`Action.endsWithColon_code`).  The lines of
the helper function have no actions, and are checked one by one.
-/

namespace LineScript

/-! ## Headers -/

/-- Whether a text ends with a colon. -/
def endsWithColon (text : String) : Bool := text.toList.getLast? == some ':'

namespace Program

variable (settings : Settings) (program : Program)

/-- The lines of the code of a program, those of the helper function first. -/
def codeLines : List CodeLine :=
  preludeOf settings program.statements ++ (emit settings {} program.statements).lines

/-- For each line of the code of a program, whether it is the header of a block: a line of the
helper function if it ends with a colon, and a line of the program if its action opens a block. -/
def headers : List Bool :=
  (preludeOf settings program.statements).map (endsWithColon ·.text) ++
    program.lines.map (·.action.word.opensBlock)

end Program

/-- A line, with the mark of a header, lets the next one be as deep as it is, and one level deeper
if it is a header. -/
def Deepens (line next : CodeLine × Bool) : Prop :=
  next.1.level ≤ line.1.level + if line.2 then 1 else 0

instance (line next : CodeLine × Bool) : Decidable (Deepens line next) :=
  inferInstanceAs (Decidable (_ ≤ _))

theorem endsWithColon_append (front : String) {back : String} (hback : endsWithColon back = true) :
    endsWithColon (front ++ back) = true := by
  rw [endsWithColon, beq_iff_eq] at hback ⊢
  rw [String.toList_append, List.getLast?_append, hback, Option.some_or]

/-- The code of an action that opens a block ends with a colon. -/
theorem Action.endsWithColon_code {settings : Settings} {action : Action} {code : String}
    (hopens : action.word.opensBlock = true) (hcode : action.code settings = .ok code) :
    endsWithColon code = true := by
  cases action with
  | define | ifBranch | elifBranch | whileLoop | forLoop =>
      cases hcode
      apply endsWithColon_append
      decide
  | exceptBlock exception? =>
      -- with and without a name of an exception
      cases exception? with
      | none =>
          cases hcode
          decide
      | some name =>
          cases hcode
          apply endsWithColon_append
          decide
  | elseBranch | tryBlock | finallyBlock =>
      cases hcode
      decide
  | _ => cases hopens

/-! ## One statement -/

namespace Layout

variable (layout : Layout)

theorem levelOf_le_depth (word : ActionWord) : layout.levelOf word ≤ layout.depth := by
  unfold levelOf
  split <;> omega

/-- Behind a line the depth is the level of the line, or one more behind a header. -/
theorem depth_after_line (content : Line) :
    (layout.after (.line content)).depth =
      layout.levelOf content.action.word + if content.action.word.opensBlock then 1 else 0 := by
  simp only [after]
  split <;> rfl

/-- Statements without a line do not add to the depth. -/
theorem depth_after_le {statement : Statement} (hline : statement.line? = none) :
    (layout.after statement).depth ≤ layout.depth := by
  cases statement with
  | line content => cases hline
  | block name state => exact Nat.le_refl layout.depth
  | blockEnd state pictograph => exact Nat.sub_le layout.depth 1
  | arrow edge => exact Nat.le_refl layout.depth

end Layout

/-! ## All statements -/

variable {settings : Settings}

theorem fst_mem_head?_of_mem_zip {α β : Type} {front : List α} {back : List β} {pair : α × β}
    (hpair : pair ∈ (front.zip back).head?) : pair.1 ∈ front.head? := by
  obtain ⟨more, hzip⟩ := List.head?_eq_some_iff.mp hpair
  obtain ⟨others, -, rfl, -, -⟩ := List.zip_eq_cons_iff.mp hzip
  rfl

/-- The lines that come out of statements, with the marks of the headers among them, go deeper one
level at a time, and the first of them is no deeper than the layout in front of it. -/
theorem isChain_deepens_emit (settings : Settings) (layout : Layout)
    (statements : List Statement) :
    ((emit settings layout statements).lines.zip
        ((statements.filterMap Statement.line?).map (·.action.word.opensBlock))).IsChain Deepens ∧
      ∀ first ∈ (emit settings layout statements).lines.head?, first.level ≤ layout.depth := by
  induction statements generalizing layout with
  | nil => exact ⟨.nil, by simp [emit]⟩
  | cons statement rest ih =>
      obtain ⟨hchain, hfirst⟩ := ih (layout.after statement)
      cases statement with
      | line content =>
          rw [emit]
          cases content.action.code settings with
          | error cause => exact ⟨.nil, by simp⟩
          | ok text =>
              constructor
              · -- the next line is at most at the depth that this one leaves
                apply List.isChain_cons.mpr
                refine ⟨?_, hchain⟩
                intro next hnext
                have hlevel : next.1.level ≤ (layout.after (.line content)).depth :=
                  hfirst next.1 (fst_mem_head?_of_mem_zip hnext)
                rwa [Layout.depth_after_line] at hlevel
              · intro first hmem
                obtain rfl := Option.some.inj hmem
                -- the line itself is not deeper than the layout allows
                exact layout.levelOf_le_depth content.action.word
      | block name state => exact ⟨hchain, hfirst⟩
      | blockEnd state pictograph =>
          refine ⟨hchain, ?_⟩
          intro first hmem
          exact Nat.le_trans (hfirst first hmem) (layout.depth_after_le rfl)
      | arrow edge => exact ⟨hchain, hfirst⟩

theorem length_headers {program : Program}
    (hcode : (emit settings {} program.statements).failure = none) :
    (program.headers settings).length = (program.codeLines settings).length := by
  have hlength : program.lines.length = (emit settings {} program.statements).lines.length :=
    (forall₂_line_emit hcode).length_eq
  simp only [Program.headers, Program.codeLines, List.length_append, List.length_map, hlength]

/-- The marks of the lines of the helper function come first. -/
theorem zip_headers (settings : Settings) (program : Program) :
    (program.codeLines settings).zip (program.headers settings) =
      (preludeOf settings program.statements).map (fun line => (line, endsWithColon line.text)) ++
        (emit settings {} program.statements).lines.zip
          (program.lines.map (·.action.word.opensBlock)) := by
  rw [Program.codeLines, Program.headers, List.zip_append (List.length_map _).symm]
  congr 1
  rw [List.zip, List.zipWith_map_right, List.zipWith_self]

/-- A line that is marked as a header ends with a colon. -/
theorem endsWithColon_of_mem_zip {program : Program}
    (hcode : (emit settings {} program.statements).failure = none) {line : CodeLine}
    (hmem : (line, true) ∈ (program.codeLines settings).zip (program.headers settings)) :
    endsWithColon line.text = true := by
  rw [zip_headers, List.mem_append] at hmem
  rcases hmem with hprelude | hbody
  · obtain ⟨_, -, heq⟩ := List.mem_map.mp hprelude
    obtain ⟨rfl, hcolon⟩ := Prod.mk.inj heq
    exact hcolon
  · rw [List.zip_map_right] at hbody
    obtain ⟨⟨other, content⟩, hpair, heq⟩ := List.mem_map.mp hbody
    obtain ⟨rfl, hopens⟩ := Prod.mk.inj heq
    have hcodes := List.forall₂_iff_zip.mp (forall₂_line_emit hcode).flip
    exact Action.endsWithColon_code hopens (hcodes.2 hpair)

/-- What stands in front of the lines of a program goes deeper one level at a time as well, and is
back at the outermost level behind its last line. -/
theorem isChain_deepens_preludeOf (settings : Settings) (statements : List Statement) :
    let lines := (preludeOf settings statements).map fun line => (line, endsWithColon line.text)
    lines.IsChain Deepens ∧ (∀ first ∈ lines.head?, first.1.level = 0) ∧
      ∀ last ∈ lines.getLast?, last.1.level = 0 ∧ last.2 = false := by
  unfold preludeOf
  split
  · decide +kernel
  · simp

/-- **Code goes deeper one level at a time.**  If there is code for a program, whatever its blocks,
its first line is at the outermost level.  Every other line is at most as deep as the line before
it, or one level deeper if that line is the header of a block.  Headers end with a colon. -/
theorem isChain_deepens_codeLines {program : Program} {code : String}
    (hcode : (program.generate settings).code = .ok code) :
    code = renderLines settings (program.codeLines settings) ∧
      (program.headers settings).length = (program.codeLines settings).length ∧
      (∀ first ∈ (program.codeLines settings).head?, first.level = 0) ∧
      ((program.codeLines settings).zip (program.headers settings)).IsChain Deepens ∧
      ∀ line, (line, true) ∈ (program.codeLines settings).zip (program.headers settings) →
        endsWithColon line.text = true := by
  obtain ⟨hemit, hrender⟩ := code_generate_eq_ok_iff.mp hcode
  obtain ⟨hbody, hbodyFirst⟩ := isChain_deepens_emit settings {} program.statements
  obtain ⟨hprelude, hfirst, hlast⟩ := isChain_deepens_preludeOf settings program.statements
  refine ⟨hrender, length_headers hemit, ?first, ?chain, fun line => endsWithColon_of_mem_zip hemit⟩
  case first =>
    -- the first line is that of the helper function, or of the program at depth zero
    intro first hmem
    rw [Program.codeLines, List.head?_append] at hmem
    cases hhead : (preludeOf settings program.statements).head? with
    | some line =>
        obtain rfl : line = first := by simpa [hhead] using hmem
        exact hfirst (line, endsWithColon line.text) (by simp [hhead])
    | none =>
        rw [hhead, Option.none_or] at hmem
        exact Nat.le_zero.mp (hbodyFirst first hmem)
  case chain =>
    rw [zip_headers]
    apply List.isChain_append.mpr
    refine ⟨hprelude, hbody, ?_⟩
    -- the helper function ends at the outermost level, where the program begins
    intro last hmem first hnext
    obtain ⟨hlevel, hmark⟩ := hlast last hmem
    have houtermost : first.1.level ≤ 0 := hbodyFirst first.1 (fst_mem_head?_of_mem_zip hnext)
    rw [Deepens, hlevel, hmark]
    exact houtermost

/-- A terminator that closes nothing, a branch that goes on with nothing, headers without lines
behind them and blocks that stay open. -/
theorem isChain_deepens_codeLines_of_unbalanced :
    let line (action : Action) : Statement := .line ⟨action, .continued, none, 0, {}⟩
    let statements : List Statement := [.blockEnd .continued none, line .elseBranch,
      line (.indexSet "x" (.number "0") .none), line (.define "f" []), line .tryBlock,
      .block "b" .continued, .blockEnd .continued none, .arrow default, line .finallyBlock,
      line .pass, line (.elifBranch (.bool true))]
    let program : Program := ⟨[⟨[⟨statements⟩]⟩]⟩
    let settings := { Settings.default with indent := "\t" }
    let code := "\n".intercalate (helperLines.map (·.render "\t") ++ ["else:",
      "\t_catapillar_index_set(\x27x\x27, x, 0, None)", "\tdef f():", "\t\ttry:", "\t\tfinally:",
      "\t\t\tpass", "\t\telif True:"])
    (program.generate settings).code = .ok code ∧
      (program.codeLines settings).map CodeLine.level = [0, 1, 2, 1, 0, 0, 1, 1, 2, 2, 3, 2] ∧
      (program.headers settings) = [true, true, false, false, false, true, false, true, true, true,
        false, true] ∧
      ((program.codeLines settings).zip (program.headers settings)).IsChain Deepens := by
  intro line statements program settings code
  have hcode : (program.generate settings).code = .ok code := by
    with_unfolding_all rfl
  refine ⟨hcode, by decide +kernel, by decide +kernel, ?_⟩
  obtain ⟨-, -, -, hchain, -⟩ := isChain_deepens_codeLines hcode
  exact hchain

end LineScript
