import LineScript.Proofs.Code.Emission

/-!
# Terminated trees

A program is usually meant as a tree: a statement with branches has a body behind each of its
headers, and the bodies hold further statements.  This file writes such trees down as a list of
statements, with a terminator behind every statement with branches.  Between two branches a
terminator may stand as well, and has to if the body in front of it ends with a statement with
branches.

Main statement: every line of a tree comes out at its depth in the tree, and complete code ends at
the outermost level (`generate_tree`).

## Strategy

The generator does not see the tree.  It keeps one number and one bit, and the bit survives arrows.
The invariant that connects the two is `layout_statements`: behind the nodes of a body the number
is the depth of the body, and the bit says whether the last of the nodes is a statement with
branches.  Behind branches that are not complete yet the number is one more.

The type of trees carries this bit as an index, so that a branch without a terminator in front of it
can only be put behind a body for which the bit is clear.  The invariant then needs no side
condition.
`levels_statements` follows the same induction once more and reads off the levels, and
`forall₂_nesting_emit` pairs them with the lines of code, one for each header and each plain line.
-/

namespace LineScript

/-! ## Trees -/

/-- The parts that trees are built of. -/
inductive Part where
  /-- The nodes of a body; `ended` says whether the last of them, arrows aside, is a statement with
  branches. -/
  | body (ended : Bool)
  /-- The first branches of a statement: the word of the last one, and whether its body ends with a
  statement with branches. -/
  | branches (last : ActionWord) (ended : Bool)

/-- Trees of statements.  Bodies and statements with branches both grow at their ends. -/
inductive Tree : Part → Type where
  | empty : Tree (.body false)
  /-- A line that opens no block. -/
  | line {ended : Bool} (front : Tree (.body ended)) (content : Line)
      (hplain : content.action.word.opensBlock = false) : Tree (.body false)
  | arrow {ended : Bool} (front : Tree (.body ended)) (edge : Arrow) : Tree (.body ended)
  /-- A statement with branches and the terminator behind it. -/
  | compound {ended lastEnded : Bool} {last : ActionWord} (front : Tree (.body ended))
      (branches : Tree (.branches last lastEnded)) (state : LineState)
      (pictograph : Option String) : Tree (.body true)
  | first {ended : Bool} (header : Line) (hopens : header.action.word.opensBlock = true)
      (hfirst : header.action.word.continuesBlock = false) (body : Tree (.body ended)) :
      Tree (.branches header.action.word ended)
  /-- A branch directly behind a body that does not end with a statement with branches. -/
  | next {previous : ActionWord} {ended : Bool} (before : Tree (.branches previous false))
      (header : Line) (hfollows : header.action.word.follows previous = true)
      (body : Tree (.body ended)) : Tree (.branches header.action.word ended)
  /-- A branch behind the terminator of the branch before it. -/
  | nextAfterEnd {previous : ActionWord} {previousEnded ended : Bool}
      (before : Tree (.branches previous previousEnded)) (state : LineState)
      (pictograph : Option String) (header : Line)
      (hfollows : header.action.word.follows previous = true) (body : Tree (.body ended)) :
      Tree (.branches header.action.word ended)

namespace Tree

variable {part : Part}

/-- The statements of a tree as they are written. -/
def statements : {part : Part} → Tree part → List Statement
  | _, .empty => []
  | _, .line front content _ => front.statements ++ [.line content]
  | _, .arrow front edge => front.statements ++ [.arrow edge]
  | _, .compound front branches state pictograph =>
      front.statements ++ (branches.statements ++ [.blockEnd state pictograph])
  | _, .first header _ _ body => .line header :: body.statements
  | _, .next before header _ body => before.statements ++ .line header :: body.statements
  | _, .nextAfterEnd before state pictograph header _ body =>
      before.statements ++ .blockEnd state pictograph :: .line header :: body.statements

/-- The lines of a tree with their depths, if the tree itself is at the given depth.  A header is
as deep as its statement, and the body behind it one deeper. -/
def nesting (depth : Nat) : {part : Part} → Tree part → List (Nat × Line)
  | _, .empty => []
  | _, .line front content _ => front.nesting depth ++ [(depth, content)]
  | _, .arrow front _ => front.nesting depth
  | _, .compound front branches _ _ => front.nesting depth ++ branches.nesting depth
  | _, .first header _ _ body => (depth, header) :: body.nesting (depth + 1)
  | _, .next before header _ body =>
      before.nesting depth ++ (depth, header) :: body.nesting (depth + 1)
  | _, .nextAfterEnd before _ _ header _ body =>
      before.nesting depth ++ (depth, header) :: body.nesting (depth + 1)

theorem map_snd_nesting (depth : Nat) (tree : Tree part) :
    (tree.nesting depth).map Prod.snd = tree.statements.filterMap Statement.line? := by
  induction tree generalizing depth with
  | empty => rfl
  | line front content hplain ih => simp [nesting, statements, Statement.line?, ih]
  | arrow front edge ih => simp [nesting, statements, Statement.line?, ih]
  | compound front branches state pictograph ihFront ihBranches =>
      simp [nesting, statements, Statement.line?, ihFront, ihBranches]
  | first header hopens hfirst body ih => simp [nesting, statements, Statement.line?, ih]
  | next before header hfollows body ihBefore ihBody =>
      simp [nesting, statements, Statement.line?, ihBefore, ihBody]
  | nextAfterEnd before state pictograph header hfollows body ihBefore ihBody =>
      simp [nesting, statements, Statement.line?, List.filterMap_cons, ihBefore, ihBody]

end Tree

/-! ## The layout of a tree -/

namespace Part

/-- The layout behind a part at a depth.  Branches leave the block of the last of them open. -/
def layout (depth : Nat) : Part → Layout
  | .body ended => ⟨depth, ended⟩
  | .branches _ ended => ⟨depth + 1, ended⟩

/-- The bit of the layout in front of a part: a body comes directly behind a header or at the
start, while a statement with branches may come behind anything. -/
def Starts (afterEnd : Bool) : Part → Prop
  | .body _ => afterEnd = false
  | .branches .. => True

/-- The terminator of a branch leads back to the depth of its statement. -/
theorem after_blockEnd (depth : Nat) (last : ActionWord) (ended : Bool) (state : LineState)
    (pictograph : Option String) :
    ((Part.branches last ended).layout depth).after (.blockEnd state pictograph) =
      ⟨depth, true⟩ := rfl

end Part

namespace Layout

/-- A line that does not go on with a statement is as deep as the layout, whatever came before. -/
theorem levelOf_of_not_continuesBlock {word : ActionWord} (hfirst : word.continuesBlock = false)
    (layout : Layout) : layout.levelOf word = layout.depth := by
  simp [levelOf, hfirst]

/-- A branch that goes on with a statement leaves the body before it by itself. -/
theorem levelOf_of_continuesBlock {word : ActionWord} (hcontinues : word.continuesBlock = true)
    (depth : Nat) : (Layout.mk (depth + 1) false).levelOf word = depth := by
  simp [levelOf, hcontinues]

/-- Behind a terminator no line leaves anything by itself. -/
theorem levelOf_afterEnd (word : ActionWord) (depth : Nat) :
    (Layout.mk depth true).levelOf word = depth := by
  simp [levelOf]

theorem after_header {content : Line} (hopens : content.action.word.opensBlock = true)
    (layout : Layout) :
    layout.after (.line content) = ⟨layout.levelOf content.action.word + 1, false⟩ := by
  simp [after, hopens]

theorem after_plain {content : Line} (hplain : content.action.word.opensBlock = false)
    (layout : Layout) :
    layout.after (.line content) = ⟨layout.levelOf content.action.word, false⟩ := by
  simp [after, hplain]

end Layout

theorem ActionWord.continuesBlock_eq_false_of_plain {word : ActionWord}
    (hplain : word.opensBlock = false) : word.continuesBlock = false := by
  cases hcontinues : word.continuesBlock with
  | false => rfl
  | true =>
      rw [opensBlock_of_continuesBlock hcontinues] at hplain
      cases hplain

namespace Tree

variable {part : Part}

/-- **The invariant.**  The layout behind a part of a tree is that of the part, whatever the bit in
front of a statement with branches was. -/
theorem layout_statements (tree : Tree part) (depth : Nat) {afterEnd : Bool}
    (hstarts : part.Starts afterEnd) :
    tree.statements.foldl Layout.after ⟨depth, afterEnd⟩ = part.layout depth := by
  induction tree generalizing depth afterEnd with
  | empty =>
      obtain rfl : afterEnd = false := hstarts
      rfl
  | line front content hplain ih =>
      have hfirst := ActionWord.continuesBlock_eq_false_of_plain hplain
      rw [statements, List.foldl_append, ih depth hstarts, List.foldl_cons, List.foldl_nil,
        Layout.after_plain hplain, Layout.levelOf_of_not_continuesBlock hfirst]
      rfl
  | arrow front edge ih =>
      rw [statements, List.foldl_append, ih depth hstarts]
      rfl
  | compound front branches state pictograph ihFront ihBranches =>
      -- the branches leave the depth of their bodies, and the terminator takes it back
      rw [statements, List.foldl_append, List.foldl_append, ihFront depth hstarts]
      simp only [Part.layout]
      rw [ihBranches depth trivial]
      rfl
  | first header hopens hfirst body ih =>
      rw [statements, List.foldl_cons, Layout.after_header hopens,
        Layout.levelOf_of_not_continuesBlock hfirst, ih (depth + 1) rfl]
      rfl
  | next before header hfollows body ihBefore ihBody =>
      -- the bit is clear behind the body before it, so that the header itself leaves this body
      have hcontinues := ActionWord.continuesBlock_of_follows hfollows
      have hopens := ActionWord.opensBlock_of_continuesBlock hcontinues
      rw [statements, List.foldl_append, List.foldl_cons, ihBefore depth trivial]
      simp only [Part.layout]
      rw [Layout.after_header hopens, Layout.levelOf_of_continuesBlock hcontinues,
        ihBody (depth + 1) rfl]
      rfl
  | nextAfterEnd before state pictograph header hfollows body ihBefore ihBody =>
      -- the terminator has left the body already, and set the bit
      have hopens := ActionWord.opensBlock_of_continuesBlock
        (ActionWord.continuesBlock_of_follows hfollows)
      rw [statements, List.foldl_append, List.foldl_cons, List.foldl_cons,
        ihBefore depth trivial, Part.after_blockEnd, Layout.after_header hopens,
        Layout.levelOf_afterEnd, ihBody (depth + 1) rfl]
      rfl

/-- The lines of a tree get the levels that are their depths in the tree. -/
theorem levels_statements (tree : Tree part) (depth : Nat) {afterEnd : Bool}
    (hstarts : part.Starts afterEnd) :
    Layout.levels ⟨depth, afterEnd⟩ tree.statements = (tree.nesting depth).map Prod.fst := by
  induction tree generalizing depth afterEnd with
  | empty => rfl
  | line front content hplain ih =>
      have hfirst := ActionWord.continuesBlock_eq_false_of_plain hplain
      rw [statements, Layout.levels_append, ih depth hstarts,
        -- the levels of the last line start from what the front has left
        front.layout_statements depth hstarts, nesting, List.map_append, Layout.levels,
        Layout.levelOf_of_not_continuesBlock hfirst]
      rfl
  | arrow front edge ih =>
      rw [statements, Layout.levels_append, ih depth hstarts, nesting]
      exact List.append_nil _
  | compound front branches state pictograph ihFront ihBranches =>
      have hend (layout : Layout) : layout.levels [.blockEnd state pictograph] = [] := rfl
      rw [statements, Layout.levels_append, Layout.levels_append, ihFront depth hstarts,
        front.layout_statements depth hstarts, Part.layout, ihBranches depth trivial, hend,
        List.append_nil, nesting, List.map_append]
  | first header hopens hfirst body ih =>
      rw [statements, Layout.levels, Layout.after_header hopens,
        Layout.levelOf_of_not_continuesBlock hfirst, ih (depth + 1) rfl, nesting, List.map_cons]
  | next before header hfollows body ihBefore ihBody =>
      have hcontinues := ActionWord.continuesBlock_of_follows hfollows
      have hopens := ActionWord.opensBlock_of_continuesBlock hcontinues
      rw [statements, Layout.levels_append, ihBefore depth trivial,
        before.layout_statements depth trivial, Part.layout, Layout.levels,
        Layout.after_header hopens, Layout.levelOf_of_continuesBlock hcontinues,
        ihBody (depth + 1) rfl, nesting, List.map_append, List.map_cons]
  | nextAfterEnd before state pictograph header hfollows body ihBefore ihBody =>
      have hopens := ActionWord.opensBlock_of_continuesBlock
        (ActionWord.continuesBlock_of_follows hfollows)
      rw [statements, Layout.levels_append, ihBefore depth trivial,
        before.layout_statements depth trivial, Layout.levels, Part.after_blockEnd,
        Layout.levels, Layout.after_header hopens, Layout.levelOf_afterEnd,
        ihBody (depth + 1) rfl, nesting, List.map_append, List.map_cons]
      · rintro content ⟨⟩

end Tree

/-- Where there is code for all lines of a tree, they come out in their order, each at its depth and
with the code of its action. -/
theorem forall₂_nesting_emit {settings : Settings} {ended : Bool} (tree : Tree (.body ended))
    (hemit : (emit settings {} tree.statements).failure = none) :
    List.Forall₂ (fun nested line => line.level = nested.1 ∧
        nested.2.action.code settings = .ok line.text)
      (tree.nesting 0) (emit settings {} tree.statements).lines := by
  have hlevels : (tree.nesting 0).map Prod.fst =
      (emit settings {} tree.statements).lines.map CodeLine.level := by
    rw [(levels_emit hemit).1]
    exact (tree.levels_statements 0 rfl).symm
  have hdepths : List.Forall₂ (fun nested line => nested.1 = line.level) (tree.nesting 0)
      (emit settings {} tree.statements).lines := by
    rw [← List.forall₂_map_right_iff, ← List.forall₂_map_left_iff, hlevels]
    exact List.forall₂_refl _
  have hcodes := forall₂_line_emit hemit
  rw [← tree.map_snd_nesting 0, List.forall₂_map_left_iff] at hcodes
  exact hdepths.mp (fun _ _ hdepth hcode => ⟨hdepth.symm, hcode⟩) hcodes

/-- **Terminated trees keep their nesting.**  If there is code for a program that is the tree of a
body, each line of the tree becomes one line of code, indented by its depth in the tree, and the
code ends at the outermost level. -/
theorem generate_tree {settings : Settings} {program : Program} {ended : Bool}
    (tree : Tree (.body ended)) (hprogram : program.statements = tree.statements) {code : String}
    (hcode : (program.generate settings).code = .ok code) :
    (program.generate settings).depth = 0 ∧
      ∃ lines, code = renderLines settings (preludeOf settings program.statements ++ lines) ∧
        List.Forall₂ (fun nested line => line.level = nested.1 ∧
          nested.2.action.code settings = .ok line.text) (tree.nesting 0) lines := by
  obtain ⟨hemit, htext⟩ := code_generate_eq_ok_iff.mp hcode
  rw [hprogram] at hemit
  refine ⟨?_, (emit settings {} tree.statements).lines, hprogram ▸ htext,
    forall₂_nesting_emit tree hemit⟩
  calc (program.generate settings).depth
      = (tree.statements.foldl Layout.after {}).depth := by
        rw [depth_generate, hprogram, (levels_emit hemit).2]
    _ = ((Part.body ended).layout 0).depth :=
        congrArg Layout.depth (tree.layout_statements 0 rfl)
    _ = 0 := rfl

/-- A definition around a loop around three branches: the second stands directly behind a body that
ends with an arrow, the third behind a terminator. -/
theorem generate_tree_of_three_branches :
    ∃ tree : Tree (.body true),
      ((Program.mk [⟨[⟨tree.statements⟩]⟩]).generate .default).code = .ok
        ("def f():\n    for i in xs:\n        if a:\n            pass\n        elif b:\n" ++
          "            print(i)\n        else:") ∧
      ((Program.mk [⟨[⟨tree.statements⟩]⟩]).generate .default).depth = 0 ∧
      ∃ lines,
        "def f():\n    for i in xs:\n        if a:\n            pass\n        elif b:\n" ++
          "            print(i)\n        else:" = renderLines .default lines ∧
        List.Forall₂ (fun nested line => line.level = nested.1 ∧
          nested.2.action.code .default = .ok line.text) (tree.nesting 0) lines := by
  let ifBranch := Tree.first ⟨.ifBranch (.ident "a"), .continued, none, 3, {}⟩ rfl rfl
    ((Tree.empty.line ⟨.pass, .continued, none, 4, {}⟩ rfl).arrow ⟨"a", "b", .forward, .continued⟩)
  let elifBranch := ifBranch.next ⟨.elifBranch (.ident "b"), .continued, none, 6, {}⟩ rfl
    (Tree.empty.line ⟨.print (some (.ident "i")), .continued, none, 7, {}⟩ rfl)
  let branches := elifBranch.nextAfterEnd .continued none
    ⟨.elseBranch, .continued, none, 9, {}⟩ rfl .empty
  let loop := Tree.first ⟨.forLoop "i" (.ident "xs"), .continued, none, 2, {}⟩ rfl rfl
    (Tree.empty.compound branches .continued none)
  let definition := Tree.first ⟨.define "f" [], .continued, none, 1, {}⟩ rfl rfl
    (Tree.empty.compound loop .continued none)
  let tree := Tree.empty.compound definition .continued none
  have hcode : ((Program.mk [⟨[⟨tree.statements⟩]⟩]).generate .default).code = .ok
      ("def f():\n    for i in xs:\n        if a:\n            pass\n        elif b:\n" ++
        "            print(i)\n        else:") := by
    decide +kernel
  exact ⟨tree, hcode, generate_tree tree rfl hcode⟩

end LineScript
