import LineScript.Proofs.Blocks.Remarks
import LineScript.Proofs.Blocks.Tree
import LineScript.Proofs.Source.EachLine

/-!
# Trees with closed branches

In a tree of statements each branch may have a terminator of its own.  The generator then keeps the
tree, whatever it is, but the reader need not.  It has no memory of terminators: a branch behind one
goes on with whatever branch is open, and behind a terminator that is the branch in whose body the
whole statement stands.  If the branch follows that one, it takes its place, and from there on the
reader has one block less open than the tree.

Main statement: this is the only thing that can go wrong.  A tree whose branches are all closed is
read without a remark on its blocks exactly if no branch behind a terminator follows the branch
around its statement (`balanced_iff_unambiguous`).

## Strategy

First the remarks are taken off the reader: there are none exactly if the events of the statements
are strayless from an empty stack and leave it empty (`forall_not_isOnBlocks_iff`).  The two
directions then go separate ways.

* **From the tree to the grammar.**  `Tree.nests` shows by induction on the tree that the events of
  an unambiguous tree are balanced.  It also covers trees with branches that are not closed.  Each
  closed branch becomes a unit of its own, and a branch that is not closed goes on with the unit of
  the one before it, which is why the induction carries the unit that is still incomplete.
* **From the stack to the tree.**  Here an ambiguous branch must be shown to leave a trace in the
  remarks.  The invariant is `LosesOrKeeps`: behind each part the reader either has fewer blocks
  open than the tree, or has exactly those of the tree and no branch was ambiguous so far.  A loss
  is never made good, since a branch opens one block at most and every terminator of the tree pops
  one (`Tree.losesOrKeeps`).  Behind the whole tree the stack would have to be shorter than the
  empty one.
-/

namespace LineScript

open OpenBlocks (afterEvent)

/-! ## Remarks on blocks -/

/-- No remark is made on terminators exactly if none of them comes where no block is open. -/
theorem strayEnds_fst_eq_nil_iff (blocks : OpenBlocks) (lines : List (LineToken × Statement)) :
    (strayEnds blocks lines).1 = [] ↔ blocks.Strayless (blockEvents (lines.map Prod.snd)) := by
  induction lines generalizing blocks with
  | nil => simp [strayEnds, blockEvents, OpenBlocks.Strayless]
  | cons line rest ih =>
      obtain ⟨token, statement⟩ := line
      have hrest := ih (blocks.after statement)
      rw [List.map_cons, blockEvents_cons, strayEnds]
      unfold OpenBlocks.after at hrest ⊢
      cases hevent : statement.blockEvent? with
      | none =>
          rw [hevent] at hrest
          simpa using hrest
      | some event =>
          cases event with
          -- an opener is never remarked on, and the rest meets the longer stack
          | opens branch =>
              rw [hevent] at hrest
              simpa [OpenBlocks.Strayless, afterEvent] using hrest
          | closes =>
              rw [hevent] at hrest
              -- a terminator is remarked on at an empty stack only
              cases blocks with
              | nil => simp [OpenBlocks.Strayless]
              | cons block outer => simpa [OpenBlocks.Strayless, afterEvent] using hrest

theorem blockDiagnostics_eq_nil_iff {lines : List (LineToken × Statement)} :
    blockDiagnostics lines = [] ↔
      OpenBlocks.Strayless [] (blockEvents (lines.map Prod.snd)) ∧
        openBlocksAfter (lines.map Prod.snd) = [] := by
  rw [← strayEnds_fst_eq_nil_iff]
  have hfinal : (strayEnds [] lines).2 = openBlocksAfter (lines.map Prod.snd) :=
    strayEnds_snd [] lines
  constructor
  · intro hnone
    -- blocks that stay open are remarked on behind the last line
    have hclosed : openBlocksAfter (lines.map Prod.snd) = [] := by
      by_contra hopen
      obtain ⟨diagnostic, hmem, -⟩ := exists_mem_blockDiagnostics hopen
      rw [hnone] at hmem
      cases hmem
    rw [hclosed] at hfinal
    simp only [blockDiagnostics, hfinal] at hnone
    exact ⟨hnone, hclosed⟩
  · rintro ⟨hstrays, hclosed⟩
    rw [hclosed] at hfinal
    simp only [blockDiagnostics, hfinal, hstrays]

theorem isOnBlocks_of_mem_blockDiagnostics {lines : List (LineToken × Statement)}
    {diagnostic : Diagnostic} (hmem : diagnostic ∈ blockDiagnostics lines) :
    diagnostic.IsOnBlocks := by
  have hstray {tokens : List LineToken}
      (hmem : diagnostic ∈ tokens.map (·.strayEndDiagnostic)) : diagnostic.IsOnBlocks := by
    obtain ⟨token, -, rfl⟩ := List.mem_map.mp hmem
    exact .inl ⟨token, rfl⟩
  obtain ⟨-, hremarks⟩ | ⟨-, last, -, hremarks⟩ := blockDiagnostics_cases lines
  · rw [hremarks] at hmem
    exact hstray hmem
  · rw [hremarks] at hmem
    rcases List.mem_append.mp hmem with hmem | hmem
    · exact hstray hmem
    · rw [List.mem_singleton] at hmem
      exact .inr ⟨last, _, hmem⟩

/-- Remarks on blocks begin like no others. -/
theorem Diagnostic.IsOnBlocks.message {diagnostic : Diagnostic} (hblocks : diagnostic.IsOnBlocks) :
    "block end".toList <+: diagnostic.message.toList ∨
      "unclosed block(s)".toList <+: diagnostic.message.toList := by
  have hbegins {front back : String} {text : List Char} (hfront : text <+: front.toList) :
      text <+: (front ++ back).toList := by
    rw [String.toList_append]
    exact hfront.trans (List.prefix_append _ _)
  rcases hblocks with ⟨token, rfl⟩ | ⟨token, count, rfl⟩
  · exact .inl (hbegins (hbegins (by decide)))
  · exact .inr (hbegins (hbegins (by decide)))

/-- The scanner has no remark on blocks. -/
theorem not_isOnBlocks_of_mem_findings {source : String} {diagnostic : Diagnostic}
    (hmem : diagnostic ∈ diagnosticsOf (findings source)) : ¬ diagnostic.IsOnBlocks := by
  -- the two remarks on blocks are known by how their messages begin
  have hother {message : String}
      (hmessage : ¬ ("block end".toList <+: message.toList ∨
        "unclosed block(s)".toList <+: message.toList)) {line : Nat} {span : Span} :
      ¬ Diagnostic.IsOnBlocks ⟨message, line, span⟩ := fun hblocks => hmessage hblocks.message
  obtain ⟨last, -, -, hremarks⟩ := EachLine.findings_eq_collect source
  rw [hremarks] at hmem
  rcases List.mem_append.mp hmem with hmem | hmem
  · obtain ⟨line, -, hremark⟩ := List.mem_filterMap.mp hmem
    unfold EachLine.remark? at hremark
    split at hremark
    · cases hremark
      exact hother (by decide)
    · cases hremark
  · cases last with
    | none => cases hmem
    | some marker =>
        obtain rfl := List.mem_singleton.mp hmem
        exact hother (by decide)

/-- A program is read without a remark on its blocks exactly if no terminator comes where no block
is open, and no block is open at the end. -/
theorem forall_not_isOnBlocks_iff {source : String} {parsed : Parsed}
    (hparse : parse source = .ok parsed) :
    (∀ diagnostic ∈ parsed.diagnostics, ¬ diagnostic.IsOnBlocks) ↔
      OpenBlocks.Strayless [] (blockEvents parsed.program.statements) ∧
        (blockEvents parsed.program.statements).foldl afterEvent [] = [] := by
  obtain ⟨lines, -, rfl⟩ := parse_eq_ok_iff.mp hparse
  rw [statements_programOf, ← openBlocksAfter_eq_foldl_afterEvent, ← blockDiagnostics_eq_nil_iff]
  constructor
  · intro hnone
    refine List.eq_nil_iff_forall_not_mem.mpr fun diagnostic hmem => ?_
    exact hnone diagnostic (List.mem_append_right _ hmem) (isOnBlocks_of_mem_blockDiagnostics hmem)
  · intro hnil diagnostic hmem
    rw [hnil, List.append_nil] at hmem
    exact not_isOnBlocks_of_mem_findings hmem

/-! ## Events of trees -/

theorem blockEvents_plain {content : Line} (hplain : content.action.word.opensBlock = false) :
    blockEvents [.line content] = [] := by
  simp [blockEvents, Statement.blockEvent?, hplain]

theorem blockEvents_header {header : Line} (hopens : header.action.word.opensBlock = true)
    (rest : List Statement) :
    blockEvents (.line header :: rest) =
      .opens (some header.action.word) :: blockEvents rest := by
  simp [blockEvents, Statement.blockEvent?, hopens]

theorem blockEvents_blockEnd (state : LineState) (pictograph : Option String)
    (rest : List Statement) :
    blockEvents (.blockEnd state pictograph :: rest) = .closes :: blockEvents rest := rfl

theorem goesOnFrom_of_not_continuesBlock {word : ActionWord}
    (hfirst : word.continuesBlock = false) (current : Option ActionWord) :
    goesOnFrom current (some word) = false := by
  cases current with
  | none => rfl
  | some previous =>
      refine Bool.eq_false_iff.mpr fun hfollows => ?_
      cases hfirst.symm.trans (ActionWord.continuesBlock_of_follows hfollows)

namespace Tree

variable {part : Part}

/-- Every branch has a terminator of its own. -/
def ClosesBranches : {part : Part} → Tree part → Prop
  | _, .empty => True
  | _, .line front _ _ => front.ClosesBranches
  | _, .arrow front _ => front.ClosesBranches
  | _, .compound front branches _ _ => front.ClosesBranches ∧ branches.ClosesBranches
  | _, .first _ _ _ body => body.ClosesBranches
  | _, .next .. => False
  | _, .nextAfterEnd before _ _ _ _ body => before.ClosesBranches ∧ body.ClosesBranches

/-- No branch behind a terminator follows the branch in whose body its statement stands; `current`
is that branch for the tree itself. -/
def Unambiguous (current : Option ActionWord) : {part : Part} → Tree part → Prop
  | _, .empty => True
  | _, .line front _ _ => front.Unambiguous current
  | _, .arrow front _ => front.Unambiguous current
  | _, .compound front branches _ _ => front.Unambiguous current ∧ branches.Unambiguous current
  | _, .first header _ _ body => body.Unambiguous (some header.action.word)
  | _, .next before header _ body =>
      before.Unambiguous current ∧ body.Unambiguous (some header.action.word)
  | _, .nextAfterEnd before _ _ header _ body =>
      before.Unambiguous current ∧ goesOnFrom current (some header.action.word) = false ∧
        body.Unambiguous (some header.action.word)

end Tree

/-! ## From the tree to the grammar -/

/-- The events of a part are balanced under a branch; branches leave the block of the last of them
open. -/
def Part.NestsUnder (current : Option ActionWord) (events : List BlockEvent) : Part → Prop
  | .body _ => Nests (.units current) events
  | .branches last _ => ∃ front unit, events = front ++ unit ∧
      Nests (.units current) front ∧ Nests (.unit current (some last)) unit

/-- The events of an unambiguous tree are balanced.  Branches behind terminators are units of their
own. -/
theorem Tree.nests {part : Part} (tree : Tree part) {current : Option ActionWord}
    (hunambiguous : tree.Unambiguous current) :
    part.NestsUnder current (blockEvents tree.statements) := by
  induction tree generalizing current with
  | empty => exact .nil
  | line front content hplain ih =>
      rw [statements, blockEvents_append, blockEvents_plain hplain, List.append_nil]
      exact ih hunambiguous
  | arrow front edge ih =>
      rw [statements, blockEvents_append]
      exact (List.append_nil _).symm ▸ ih hunambiguous
  | compound front branches state pictograph ihFront ihBranches =>
      -- the terminator completes the last unit of the branches
      obtain ⟨hfront, hbranches⟩ := hunambiguous
      obtain ⟨earlier, unit, hevents, hearlier, hunit⟩ := ihBranches hbranches
      -- the terminator completes that unit; the branch behind it begins the next one
      have hclosed : Nests (.units current) (earlier ++ (unit ++ [.closes])) :=
        hearlier.append hunit
      rw [statements, blockEvents_append, blockEvents_append, hevents, List.append_assoc]
      exact Nests.units_append (ihFront hfront) hclosed
  | first header hopens hfirst body ih =>
      rw [statements, blockEvents_header hopens]
      -- nothing stands in front of the first branch, which begins a unit
      exact ⟨[], _, rfl, .nil, .first (goesOnFrom_of_not_continuesBlock hfirst current)
        (ih hunambiguous)⟩
  | next before header hfollows body ihBefore ihBody =>
      obtain ⟨hbefore, hbody⟩ := hunambiguous
      obtain ⟨earlier, unit, hevents, hearlier, hunit⟩ := ihBefore hbefore
      have hopens := ActionWord.opensBlock_of_continuesBlock
        (ActionWord.continuesBlock_of_follows hfollows)
      rw [statements, blockEvents_append, blockEvents_header hopens, hevents, List.append_assoc]
      -- the branch goes on with the unit that is not complete yet
      exact ⟨earlier, _, rfl, hearlier, .next hunit hfollows (ihBody hbody)⟩
  | nextAfterEnd before state pictograph header hfollows body ihBefore ihBody =>
      obtain ⟨hbefore, hseparate, hbody⟩ := hunambiguous
      obtain ⟨earlier, unit, hevents, hearlier, hunit⟩ := ihBefore hbefore
      have hopens := ActionWord.opensBlock_of_continuesBlock
        (ActionWord.continuesBlock_of_follows hfollows)
      have hclosed : Nests (.units current) (earlier ++ (unit ++ [.closes])) :=
        hearlier.append hunit
      rw [statements, blockEvents_append, blockEvents_blockEnd, blockEvents_header hopens, hevents]
      refine ⟨_, _, ?_, hclosed, .first hseparate (ihBody hbody)⟩
      simp only [List.append_assoc, List.singleton_append]

/-! ## From the stack to the tree -/

theorem OpenBlocks.length_opened_le (blocks : OpenBlocks) (branch : Option ActionWord) :
    (blocks.opened branch).length ≤ blocks.length + 1 := by
  cases hgoesOn : goesOnFrom blocks.current branch with
  | false =>
      rw [OpenBlocks.opened_of_not_goesOnFrom hgoesOn]
      exact Nat.le_refl _
  | true =>
      obtain ⟨last, outer, rfl, hopened⟩ := blocks.opened_of_goesOnFrom hgoesOn
      rw [hopened]
      exact Nat.le_succ _

/-- The blocks that are open behind a part of a tree. -/
def Part.openBlocks (blocks : OpenBlocks) : Part → OpenBlocks
  | .body _ => blocks
  | .branches last _ => some last :: blocks

/-- The reader has lost a block of a tree on the way, or has the blocks of the tree open. -/
def Tree.LosesOrKeeps {part : Part} (tree : Tree part) (blocks after : OpenBlocks) : Prop :=
  after.length < (part.openBlocks blocks).length ∨
    after = part.openBlocks blocks ∧ tree.Unambiguous blocks.current

theorem Tree.LosesOrKeeps.length_le {part : Part} {tree : Tree part} {blocks after : OpenBlocks}
    (hafter : tree.LosesOrKeeps blocks after) :
    after.length ≤ (part.openBlocks blocks).length := by
  rcases hafter with hlost | ⟨rfl, -⟩
  · exact Nat.le_of_lt hlost
  · exact Nat.le_refl _

/-- The terminator of the last branch leaves the blocks around the statement open, unless one is
lost. -/
theorem Tree.LosesOrKeeps.tail {last : ActionWord} {ended : Bool}
    {branches : Tree (.branches last ended)} {blocks inner : OpenBlocks}
    (hinner : branches.LosesOrKeeps blocks inner) (hne : inner ≠ []) :
    inner.tail.length < blocks.length ∨
      inner.tail = blocks ∧ branches.Unambiguous blocks.current := by
  rcases hinner with hlost | ⟨rfl, hbranches⟩
  · have hpos : 0 < inner.length := List.length_pos_iff.mpr hne
    simp only [Part.openBlocks, List.length_cons] at hlost
    rw [List.length_tail]
    exact .inl (by omega)
  · exact .inr ⟨rfl, hbranches⟩

/-- A branch behind a terminator opens a block, or takes the place of the one around the
statement, which is lost then. -/
theorem Tree.LosesOrKeeps.nextAfterEnd {previous : ActionWord} {previousEnded ended : Bool}
    {before : Tree (.branches previous previousEnded)} {state : LineState}
    {pictograph : Option String} {header : Line}
    {hfollows : header.action.word.follows previous = true} {body : Tree (.body ended)}
    {blocks outer after : OpenBlocks}
    (hbody : body.LosesOrKeeps (outer.opened (some header.action.word)) after)
    (hbefore : outer.length < blocks.length ∨
      outer = blocks ∧ before.Unambiguous blocks.current) :
    (before.nextAfterEnd state pictograph header hfollows body).LosesOrKeeps blocks after := by
  have hle := hbody.length_le
  rcases hbefore with hlost | ⟨rfl, hbefore⟩
  · -- a block was lost before, and the branch opens one at most
    have hopened := outer.length_opened_le (some header.action.word)
    exact .inl (Nat.lt_of_le_of_lt (hle.trans hopened) (Nat.succ_lt_succ hlost))
  · cases hgoesOn : goesOnFrom outer.current (some header.action.word) with
    | true =>
        -- the branch takes the place of the one around the statement
        obtain ⟨last, rest, rfl, hopened⟩ := outer.opened_of_goesOnFrom hgoesOn
        refine .inl (Nat.lt_of_le_of_lt hle ?_)
        rw [hopened]
        exact Nat.lt_succ_self _
    | false =>
        -- it opens a block of its own, as in the tree
        rw [OpenBlocks.opened_of_not_goesOnFrom hgoesOn] at hbody
        exact hbody.imp_right (And.imp_right fun hbody => ⟨hbefore, hgoesOn, hbody⟩)

/-- **The invariant.**  As long as no terminator comes where no block is open, the reader never
makes up for a block that it has lost. -/
theorem Tree.losesOrKeeps {part : Part} (tree : Tree part) (hclosed : tree.ClosesBranches)
    {blocks : OpenBlocks} (hstrayless : blocks.Strayless (blockEvents tree.statements)) :
    tree.LosesOrKeeps blocks ((blockEvents tree.statements).foldl afterEvent blocks) := by
  induction tree generalizing blocks with
  | empty => exact .inr ⟨rfl, trivial⟩
  | line front content hplain ih =>
      rw [statements, blockEvents_append, blockEvents_plain hplain, List.append_nil] at hstrayless ⊢
      exact ih hclosed hstrayless
  | arrow front edge ih =>
      have hevents : blockEvents (front.arrow edge).statements = blockEvents front.statements := by
        rw [statements, blockEvents_append]
        exact List.append_nil _
      rw [hevents] at hstrayless ⊢
      exact ih hclosed hstrayless
  | compound front branches state pictograph ihFront ihBranches =>
      obtain ⟨hclosedFront, hclosedBranches⟩ := hclosed
      rw [statements, blockEvents_append, blockEvents_append, OpenBlocks.strayless_append,
        OpenBlocks.strayless_append] at hstrayless
      obtain ⟨hstraysFront, hstraysBranches, hmeets, -⟩ := hstrayless
      -- the branches start from whatever the front has left open
      have hfront := ihFront hclosedFront hstraysFront
      have hbranches := (ihBranches hclosedBranches hstraysBranches).tail (hmeets rfl)
      rw [statements, blockEvents_append, blockEvents_append, List.foldl_append, List.foldl_append]
      generalize (blockEvents front.statements).foldl afterEvent blocks = middle at *
      rcases hfront with hlost | ⟨rfl, hfront⟩
      · -- a block lost in the front is not regained by the branches
        refine .inl (Nat.lt_of_le_of_lt ?_ hlost)
        rcases hbranches with hless | ⟨hkept, -⟩
        · exact Nat.le_of_lt hless
        · exact Nat.le_of_eq (congrArg List.length hkept)
      · exact hbranches.imp_right (And.imp_right fun hbranches => ⟨hfront, hbranches⟩)
  | first header hopens hfirst body ih =>
      -- a first branch follows nothing, so that the stack grows as the tree does
      have hopened : blocks.afterEvent (.opens (some header.action.word)) =
          some header.action.word :: blocks :=
        OpenBlocks.opened_of_not_goesOnFrom (goesOnFrom_of_not_continuesBlock hfirst _)
      rw [statements, blockEvents_header hopens] at hstrayless ⊢
      obtain ⟨-, hstrayless⟩ := hstrayless
      rw [hopened] at hstrayless
      rw [List.foldl_cons, hopened]
      exact ih hclosed hstrayless
  | next before header hfollows body ihBefore ihBody => exact hclosed.elim
  | nextAfterEnd before state pictograph header hfollows body ihBefore ihBody =>
      obtain ⟨hclosedBefore, hclosedBody⟩ := hclosed
      have hopens := ActionWord.opensBlock_of_continuesBlock
        (ActionWord.continuesBlock_of_follows hfollows)
      rw [statements, blockEvents_append, blockEvents_blockEnd, blockEvents_header hopens,
        OpenBlocks.strayless_append] at hstrayless
      obtain ⟨hstraysBefore, hmeets, -, hstraysBody⟩ := hstrayless
      -- the terminator pops the branches before, and the header meets the blocks around them
      have hbefore := (ihBefore hclosedBefore hstraysBefore).tail (hmeets rfl)
      have hbody := ihBody hclosedBody hstraysBody
      rw [statements, blockEvents_append, blockEvents_blockEnd, blockEvents_header hopens,
        List.foldl_append, List.foldl_cons, List.foldl_cons]
      exact hbody.nextAfterEnd hbefore

/-- **Closed branches balance unless a branch is taken for another one.**  A program that is a tree
whose branches all have terminators of their own is read without a remark on its blocks exactly if
no branch behind a terminator follows the branch around its statement. -/
theorem balanced_iff_unambiguous {source : String} {parsed : Parsed} {ended : Bool}
    (tree : Tree (.body ended)) (hclosed : tree.ClosesBranches)
    (hparse : parse source = .ok parsed)
    (hstatements : parsed.program.statements = tree.statements) :
    (∀ diagnostic ∈ parsed.diagnostics, ¬ diagnostic.IsOnBlocks) ↔ tree.Unambiguous none := by
  rw [forall_not_isOnBlocks_iff hparse, hstatements]
  constructor
  · rintro ⟨hstrayless, hfinal⟩
    -- no stack is shorter than the empty one, so that nothing was lost
    have hafter := tree.losesOrKeeps hclosed hstrayless
    rw [hfinal] at hafter
    rcases hafter with hlost | ⟨-, hunambiguous⟩
    · exact absurd hlost (Nat.not_lt_zero _)
    · exact hunambiguous
  · intro hunambiguous
    have hbalance : BlocksBalance (blockEvents tree.statements) := tree.nests hunambiguous
    exact ⟨hbalance.strayless, (hbalance.foldl_afterEvent _ rfl).1⟩

/-- A statement with three branches in a definition, and one with two in the last of them: `finally`
does not follow the `finally` around it. -/
theorem balanced_of_closed_branches :
    ∃ (parsed : Parsed) (tree : Tree (.body true)), tree.ClosesBranches ∧
      parse "def f\ntry\nend\nexcept\nend\nfinally\ntry\nend\nfinally\nend\nend\nend" = .ok parsed ∧
      parsed.program.statements = tree.statements ∧ tree.Unambiguous none ∧
      ∀ diagnostic ∈ parsed.diagnostics, ¬ diagnostic.IsOnBlocks := by
  let inner := (Tree.first ⟨.tryBlock, .continued, none, 7, ⟨33, 36⟩⟩ rfl rfl .empty).nextAfterEnd
    .continued none ⟨.finallyBlock, .continued, none, 9, ⟨41, 48⟩⟩ rfl .empty
  let tryBranch := Tree.first ⟨.tryBlock, .continued, none, 2, ⟨6, 9⟩⟩ rfl rfl .empty
  let exceptBranch := tryBranch.nextAfterEnd .continued none
    ⟨.exceptBlock none, .continued, none, 4, ⟨14, 20⟩⟩ rfl .empty
  let branches := exceptBranch.nextAfterEnd .continued none
    ⟨.finallyBlock, .continued, none, 6, ⟨25, 32⟩⟩ rfl (Tree.empty.compound inner .continued none)
  let definition := Tree.first ⟨.define "f" [], .continued, none, 1, ⟨0, 5⟩⟩ rfl rfl
    (Tree.empty.compound branches .continued none)
  let tree := Tree.empty.compound definition .continued none
  have hfacts : (parse
      "def f\ntry\nend\nexcept\nend\nfinally\ntry\nend\nfinally\nend\nend\nend").toOption.map
      (fun parsed => parsed.program.statements) = some tree.statements := by
    rfl
  obtain ⟨parsed, hparse, hstatements⟩ := exists_parsed hfacts
  have hclosed : tree.ClosesBranches :=
    ⟨trivial, trivial, ⟨⟨trivial, trivial⟩, trivial, trivial, trivial⟩⟩
  have hunambiguous : tree.Unambiguous none :=
    ⟨trivial, trivial, ⟨trivial, rfl, trivial⟩, rfl, trivial, trivial, rfl, trivial⟩
  exact ⟨parsed, tree, hclosed, hparse, hstatements, hunambiguous,
    (balanced_iff_unambiguous tree hclosed hparse hstatements).mpr hunambiguous⟩

/-- All branches are closed, but `finally` follows the `try` around its statement.  It takes the
place of that branch, so that the last terminator closes nothing. -/
theorem not_balanced_of_closed_branches :
    ∃ (parsed : Parsed) (tree : Tree (.body true)), tree.ClosesBranches ∧
      parse "try\ntry\nend\nfinally\nend\nend" = .ok parsed ∧
      parsed.program.statements = tree.statements ∧
      ∃ diagnostic ∈ parsed.diagnostics, diagnostic.IsOnBlocks := by
  let inner := (Tree.first ⟨.tryBlock, .continued, none, 2, ⟨4, 7⟩⟩ rfl rfl .empty).nextAfterEnd
    .continued none ⟨.finallyBlock, .continued, none, 4, ⟨12, 19⟩⟩ rfl .empty
  let outer := Tree.first ⟨.tryBlock, .continued, none, 1, ⟨0, 3⟩⟩ rfl rfl
    (Tree.empty.compound inner .continued none)
  let tree := Tree.empty.compound outer .continued none
  let stray : LineToken := ⟨"end", [], .continued, none, 6, ⟨24, 27⟩⟩
  have hfacts : (parse "try\ntry\nend\nfinally\nend\nend").toOption.map
      (fun parsed => (parsed.program.statements, parsed.diagnostics)) =
      some (tree.statements, [stray.strayEndDiagnostic]) := by
    rfl
  obtain ⟨parsed, hparse, hfacts⟩ := exists_parsed hfacts
  obtain ⟨hstatements, hdiagnostics⟩ := Prod.mk.inj hfacts
  refine ⟨parsed, tree, ⟨trivial, trivial, trivial, trivial⟩, hparse, hstatements,
    stray.strayEndDiagnostic, ?_, .inl ⟨stray, rfl⟩⟩
  rw [hdiagnostics]
  exact List.mem_singleton_self _

end LineScript
