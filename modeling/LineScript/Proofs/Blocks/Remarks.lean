import LineScript.Proofs.Blocks.Balance
import LineScript.Proofs.Blocks.Grammar
import LineScript.Proofs.Program.KnownNames

/-!
# What is remarked on

The reader remarks on each terminator that closes nothing, and once on all blocks that nothing
closes.  Main statement: these remarks are exactly what the grammar of blocks says
(`blockRemarks_of_readProgram`).  There are none if and only if the program is balanced.  A
terminator is remarked on if no block is open after what comes before it, and the last remark counts
the blocks that the grammar leaves open; that many terminators have to be appended for it to go.

## Strategy

The remarks are made while the stack of open blocks is carried along, whereas the statement speaks
of lines and of what stands before them.

* `strayEnds_fst` takes the stack away: the remarks are those on the lines whose number `IsStrayEnd`
  singles out.  The induction runs over the lines that are left, with those already read kept as a
  prefix, since a line is stray or not because of its prefix.
* `blockDiagnostics_cases` adds the remark behind the last line, which is there exactly if the stack
  is not empty.
* What the count means is said by appending terminators: each of them pops one block
  (`openBlocksAfter_append_ends`), and terminators are read whatever stands before them
  (`readLines_ends`), so that the longer program can be compared with the shorter one.
-/

namespace LineScript

/-! ## Events of statements -/

/-- What statements do to the open blocks, in order. -/
def blockEvents (statements : List Statement) : List BlockEvent :=
  statements.filterMap Statement.blockEvent?

theorem blockEvents_append (front back : List Statement) :
    blockEvents (front ++ back) = blockEvents front ++ blockEvents back :=
  List.filterMap_append

theorem blockEvents_cons (statement : Statement) (rest : List Statement) :
    blockEvents (statement :: rest) = statement.blockEvent?.toList ++ blockEvents rest := by
  rw [blockEvents, List.filterMap_cons]
  cases statement.blockEvent? <;> rfl

theorem openBlocksAfter_eq_foldl_afterEvent (statements : List Statement) :
    openBlocksAfter statements = (blockEvents statements).foldl OpenBlocks.afterEvent [] := by
  induction statements using List.reverseRecOn with
  | nil => rfl
  | append_singleton before statement ih =>
      rw [openBlocksAfter_concat, blockEvents_append, List.foldl_append, ← ih, OpenBlocks.after,
        blockEvents_cons]
      cases statement.blockEvent? with
      | none => rfl
      | some event => cases event <;> rfl

theorem outermost_blockEvents_iff {statements : List Statement} :
    Outermost (blockEvents statements) ↔ openBlocksAfter statements = [] := by
  rw [outermost_iff, openBlocksAfter_eq_foldl_afterEvent]

/-! ## Terminators that close nothing -/

/-- The statement with some index is a terminator, and no block is open after the statements before
it. -/
def IsStrayEnd (statements : List Statement) (i : Nat) : Prop :=
  statements[i]?.bind Statement.blockEvent? = some .closes ∧
    Outermost (blockEvents (statements.take i))

instance (statements : List Statement) (i : Nat) : Decidable (IsStrayEnd statements i) :=
  inferInstanceAs (Decidable (_ ∧ _))

/-- The lines whose terminators close nothing, in order. -/
def strayLines (tokens : List LineToken) (statements : List Statement) : List LineToken :=
  (tokens.zipIdx.filter fun line => IsStrayEnd statements line.2).map Prod.fst

/-- The remarks on terminators, in the lines behind some others. -/
theorem strayEnds_fst (before rest : List (LineToken × Statement)) :
    (strayEnds (openBlocksAfter (before.map Prod.snd)) rest).1 =
      (((rest.map Prod.fst).zipIdx before.length).filter fun line =>
        IsStrayEnd ((before ++ rest).map Prod.snd) line.2).map (·.1.strayEndDiagnostic) := by
  induction rest generalizing before with
  | nil => rfl
  | cons line rest ih =>
      obtain ⟨token, statement⟩ := line
      have hrest := ih (before ++ [(token, statement)])
      rw [List.map_append, List.map_singleton, openBlocksAfter_concat, List.append_assoc,
        List.singleton_append, List.length_append, List.length_singleton] at hrest
      -- whether the first of the remaining lines is stray is asked of the stack
      have hstray : IsStrayEnd ((before ++ (token, statement) :: rest).map Prod.snd)
          before.length ↔
          statement.blockEvent? = some .closes ∧ openBlocksAfter (before.map Prod.snd) = [] := by
        rw [IsStrayEnd, List.getElem?_map, List.getElem?_append_right (Nat.le_refl _), Nat.sub_self,
          ← List.map_take, List.take_left, outermost_blockEvents_iff]
        rfl
      rw [List.map_cons, List.zipIdx_cons, List.filter_cons, strayEnds]
      -- the list of all statements is only asked which of its lines are stray
      generalize (before ++ (token, statement) :: rest).map Prod.snd = all at hrest hstray ⊢
      by_cases hends : IsStrayEnd all before.length
      · obtain ⟨hcloses, hnil⟩ := hstray.mp hends
        rw [hnil] at hrest ⊢
        simp [hends, hcloses, hrest]
      · -- a line that is not stray adds no remark
        have hkept : (statement.blockEvent? == some .closes &&
            (openBlocksAfter (before.map Prod.snd)).isEmpty) = false := by
          rw [← Bool.not_eq_true]
          intro hboth
          rw [Bool.and_eq_true, beq_iff_eq, List.isEmpty_iff] at hboth
          exact hends (hstray.mpr hboth)
        simp [hends, hkept, hrest]

theorem strayLines_eq_nil_iff {tokens : List LineToken} {statements : List Statement}
    (hlength : tokens.length = statements.length) :
    strayLines tokens statements = [] ↔ ¬ ∃ i, IsStrayEnd statements i := by
  rw [strayLines, List.map_eq_nil_iff, List.filter_eq_nil_iff, not_exists]
  constructor
  · intro hall i hstray
    obtain ⟨statement, hget, -⟩ := Option.bind_eq_some_iff.mp hstray.1
    obtain ⟨hlt, -⟩ := List.getElem?_eq_some_iff.mp hget
    have hlt : i < tokens.length := by omega
    have hmem : (tokens[i], i) ∈ tokens.zipIdx :=
      List.mk_mem_zipIdx_iff_getElem?.mpr (List.getElem?_eq_getElem hlt)
    exact hall _ hmem (decide_eq_true hstray)
  · intro hall line _ hstray
    exact hall line.2 (of_decide_eq_true hstray)

/-- Where terminators stand among the events, they stand among the statements. -/
theorem exists_isStrayEnd_iff {statements : List Statement} :
    (∃ i, IsStrayEnd statements i) ↔
      ∃ front back, blockEvents statements = front ++ .closes :: back ∧ Outermost front := by
  constructor
  · rintro ⟨i, hcloses, houtermost⟩
    obtain ⟨statement, hget, hevent⟩ := Option.bind_eq_some_iff.mp hcloses
    obtain ⟨hlt, rfl⟩ := List.getElem?_eq_some_iff.mp hget
    refine ⟨blockEvents (statements.take i), blockEvents (statements.drop (i + 1)), ?_, houtermost⟩
    conv_lhs => rw [← List.take_append_drop i statements]
    rw [blockEvents_append, List.drop_eq_getElem_cons hlt, blockEvents_cons, hevent]
    rfl
  · rintro ⟨front, back, hevents, houtermost⟩
    -- the statement behind the event may have silent statements in front of it
    obtain ⟨before, rest, rfl, rfl, hrest⟩ := List.filterMap_eq_append_iff.mp hevents
    obtain ⟨silent, statement, more, rfl, hsilent, hevent, -⟩ := List.filterMap_eq_cons_iff.mp hrest
    have hnone : blockEvents silent = [] := List.filterMap_eq_nil_iff.mpr hsilent
    refine ⟨(before ++ silent).length, ?_, ?_⟩
    · rw [← List.append_assoc, List.getElem?_append_right (Nat.le_refl _), Nat.sub_self]
      exact hevent
    · rw [← List.append_assoc, List.take_left, blockEvents_append, hnone, List.append_nil]
      exact houtermost

/-! ## Blocks that nothing closes -/

theorem openBlocksAfter_append_ends (statements : List Statement) {ends : List Statement}
    (hends : ∀ statement ∈ ends, statement.blockEvent? = some .closes) :
    openBlocksAfter (statements ++ ends) = (openBlocksAfter statements).drop ends.length := by
  induction ends using List.reverseRecOn with
  | nil => rw [List.append_nil, List.length_nil, List.drop_zero]
  | append_singleton before statement ih =>
      have hbefore := ih fun other hmem => hends other (List.mem_append_left _ hmem)
      have hcloses := hends statement (List.mem_append_right _ List.mem_cons_self)
      rw [← List.append_assoc, openBlocksAfter_concat, hbefore, OpenBlocks.after, hcloses,
        List.length_append, List.length_singleton]
      exact List.tail_drop

/-- The remarks on blocks are those on terminators, and one on the last line if blocks are open. -/
theorem blockDiagnostics_cases (lines : List (LineToken × Statement)) :
    let blocks := openBlocksAfter (lines.map Prod.snd)
    let strays := (strayLines (lines.map Prod.fst) (lines.map Prod.snd)).map (·.strayEndDiagnostic)
    (blocks = [] ∧ blockDiagnostics lines = strays) ∨
      (blocks ≠ [] ∧ ∃ last, (lines.map Prod.fst).getLast? = some last ∧
        blockDiagnostics lines = strays ++ [last.openBlocksDiagnostic blocks.length]) := by
  intro blocks strays
  have hstrays : (strayEnds [] lines).1 = strays := by
    rw [show strays = _ from List.map_map]
    exact strayEnds_fst [] lines
  have hblocks : (strayEnds [] lines).2 = blocks := strayEnds_snd [] lines
  by_cases hnil : blocks = []
  · refine .inl ⟨hnil, ?_⟩
    rw [hnil] at hblocks
    simp [blockDiagnostics, hblocks, hstrays]
  · -- blocks that are open have been opened on some line
    have hne : lines ≠ [] := by
      rintro rfl
      exact hnil rfl
    refine .inr ⟨hnil, (lines.getLast hne).1, ?_, ?_⟩
    · rw [List.getLast?_map, List.getLast?_eq_some_getLast hne]
      rfl
    · obtain ⟨branch, outer, hcons⟩ := List.exists_cons_of_ne_nil hnil
      rw [hcons] at hblocks ⊢
      simp [blockDiagnostics, hblocks, hstrays, List.getLast?_eq_some_getLast hne]

theorem head?_toList_append {front : String} {c : Char} (hfront : front.toList.head? = some c)
    (back : String) : (front ++ back).toList.head? = some c := by
  rw [String.toList_append, List.head?_append, hfront, Option.some_or]

theorem LineToken.strayEndDiagnostic_ne (stray last : LineToken) (count : Nat) :
    stray.strayEndDiagnostic ≠ last.openBlocksDiagnostic count := by
  intro heq
  have hstray : stray.strayEndDiagnostic.message.toList.head? = some 'b' :=
    head?_toList_append (head?_toList_append (by decide) _) _
  have hlast : (last.openBlocksDiagnostic count).message.toList.head? = some 'u' :=
    head?_toList_append (head?_toList_append (by decide) _) _
  rw [heq, hlast] at hstray
  cases hstray

/-- It shows in the remarks whether blocks are open. -/
theorem exists_openBlocksDiagnostic_mem_iff {lines : List (LineToken × Statement)} :
    (∃ (last : LineToken) (count : Nat), last.openBlocksDiagnostic count ∈ blockDiagnostics lines) ↔
      openBlocksAfter (lines.map Prod.snd) ≠ [] := by
  have hnot (tokens : List LineToken) (last : LineToken) (count : Nat) :
      last.openBlocksDiagnostic count ∉ tokens.map (·.strayEndDiagnostic) := by
    intro hmem
    obtain ⟨stray, -, heq⟩ := List.mem_map.mp hmem
    exact stray.strayEndDiagnostic_ne last count heq
  obtain ⟨hnil, hremarks⟩ | ⟨hne, last, -, hremarks⟩ := blockDiagnostics_cases lines
  · refine ⟨fun ⟨last, count, hmem⟩ => ?_, fun hne => absurd hnil hne⟩
    rw [hremarks] at hmem
    exact absurd hmem (hnot _ last count)
  · refine ⟨fun _ => hne, fun _ => ⟨last, (openBlocksAfter (lines.map Prod.snd)).length, ?_⟩⟩
    rw [hremarks]
    exact List.mem_append_right _ List.mem_cons_self

/-! ## The remarks of a program -/

/-- Terminators are read as what they are, whatever stands before them. -/
theorem readLines_ends (known : KnownNames) {ends : List LineToken}
    (hends : ∀ token ∈ ends, isBlockEnd token.action = true) :
    readLines known ends =
      .ok (ends.map fun token => (token, .blockEnd token.state token.pictograph)) := by
  induction ends generalizing known with
  | nil => rfl
  | cons token rest ih =>
      obtain ⟨hend, hrest⟩ := List.forall_mem_cons.mp hends
      refine readLines_cons_eq_ok_iff.mpr ⟨_, _, ?_, ih _ hrest, rfl⟩
      exact if_pos hend

/-- **Remarks on blocks are exact.**  A program gets none exactly if its events are balanced.
Otherwise each terminator that meets no open block gets one, in order, and if blocks are open after
all events, the last line gets one with their number.  With terminators at the end this last remark
goes exactly when there are as many of them. -/
theorem blockRemarks_of_readProgram {tokens : List LineToken} {diagnostics : List Diagnostic}
    {parsed : Parsed} (hread : readProgram tokens diagnostics = .ok parsed) :
    let statements := parsed.program.statements
    let strays := (strayLines tokens statements).map (·.strayEndDiagnostic)
    ∃ blocks remarks, LeavesOpen blocks (blockEvents statements) ∧
      parsed.diagnostics = diagnostics ++ remarks ∧
      (remarks = [] ↔ BlocksBalance (blockEvents statements)) ∧
      (blocks = [] ∧ remarks = strays ∨
        blocks ≠ [] ∧ ∃ last, tokens.getLast? = some last ∧
          remarks = strays ++ [last.openBlocksDiagnostic blocks.length]) ∧
      ∀ ends : List LineToken, (∀ token ∈ ends, isBlockEnd token.action = true) →
        ∃ longer more, readProgram (tokens ++ ends) diagnostics = .ok longer ∧
          longer.diagnostics = diagnostics ++ more ∧
          ((∃ (last : LineToken) (count : Nat), last.openBlocksDiagnostic count ∈ more) ↔
            ends.length < blocks.length) := by
  obtain ⟨lines, hlines, rfl⟩ := readProgram_eq_ok_iff.mp hread
  obtain ⟨rfl, -⟩ := readLines_eq_ok_iff.mp hlines
  intro statements strays
  have hstatements : statements = lines.map Prod.snd := statements_programOf lines
  have hlength : (lines.map Prod.fst).length = statements.length := by
    rw [hstatements, List.length_map, List.length_map]
  have hcases := blockDiagnostics_cases lines
  rw [← hstatements] at hcases
  refine ⟨openBlocksAfter statements, blockDiagnostics lines, ?_, rfl, ?_, hcases, ?_⟩
  · -- the grammar leaves open what the stack holds
    exact foldl_afterEvent_eq_iff.mp (openBlocksAfter_eq_foldl_afterEvent statements).symm
  · -- no remark: balance in the grammar
    have hbalance : BlocksBalance (blockEvents statements) ↔
        openBlocksAfter statements = [] ∧ strayLines (lines.map Prod.fst) statements = [] := by
      rw [blocksBalance_iff, outermost_blockEvents_iff, strayLines_eq_nil_iff hlength,
        exists_isStrayEnd_iff]
      simp only [not_exists, not_and]
    rw [hbalance]
    obtain ⟨hnil, hremarks⟩ | ⟨hne, last, -, hremarks⟩ := hcases
    · simp [hremarks, hnil]
    · simp [hremarks, hne]
  · -- the last remark: each terminator that is appended pops one block
    intro ends hends
    let closed := ends.map fun token : LineToken =>
      (token, Statement.blockEnd token.state token.pictograph)
    have hlonger : readLines .empty (lines.map Prod.fst ++ ends) = .ok (lines ++ closed) :=
      readLines_append_eq_ok_iff.mpr ⟨lines, closed, hlines, readLines_ends _ hends, rfl⟩
    refine ⟨_, blockDiagnostics (lines ++ closed), readProgram_eq_ok_iff.mpr ⟨_, hlonger, rfl⟩,
      rfl, ?_⟩
    have hcloses : ∀ statement ∈ closed.map Prod.snd, statement.blockEvent? = some .closes := by
      simp [closed, Statement.blockEvent?]
    rw [exists_openBlocksDiagnostic_mem_iff, List.map_append, openBlocksAfter_append_ends _ hcloses,
      ← hstatements, ne_eq, List.drop_eq_nil_iff, Nat.not_le, List.length_map, List.length_map]

/-- A terminator at the beginning, and two blocks at the end: `else` takes the place of `if`, and
`try` is inside of it. -/
theorem blockRemarks_of_stray_and_open :
    ∃ parsed, parse "end\nif a\nelse\ntry" = .ok parsed ∧
      LeavesOpen [some .tryBlock, some .elseBranch] (blockEvents parsed.program.statements) ∧
      ¬ BlocksBalance (blockEvents parsed.program.statements) ∧
      parsed.diagnostics =
        [⟨"block end 'end' without a matching block opener", 1, ⟨0, 3⟩⟩,
          ⟨"unclosed block(s): expected 2 more '终/end' statement(s)", 4, ⟨14, 17⟩⟩] := by
  have hfacts : ((parse "end\nif a\nelse\ntry").toOption.map fun parsed =>
      (blockEvents parsed.program.statements, parsed.diagnostics)) =
      some ([.closes, .opens (some .ifBranch), .opens (some .elseBranch), .opens (some .tryBlock)],
        [⟨"block end 'end' without a matching block opener", 1, ⟨0, 3⟩⟩,
          ⟨"unclosed block(s): expected 2 more '终/end' statement(s)", 4, ⟨14, 17⟩⟩]) := by
    decide +kernel
  have hscanned : diagnosticsOf (findings "end\nif a\nelse\ntry") = [] := by
    decide +kernel
  obtain ⟨parsed, hparse, hfacts⟩ := exists_parsed hfacts
  obtain ⟨hevents, hdiagnostics⟩ := Prod.mk.inj hfacts
  obtain ⟨blocks, remarks, hopen, hremarks, hbalance, -⟩ := blockRemarks_of_readProgram hparse
  rw [hscanned, List.nil_append, hdiagnostics] at hremarks
  have hblocks : blocks = [some .tryBlock, some .elseBranch] := by
    rw [← foldl_afterEvent_eq_iff.mpr hopen, hevents]
    decide
  refine ⟨parsed, hparse, hblocks ▸ hopen, ?_, hdiagnostics⟩
  rw [← hbalance, ← hremarks]
  exact List.cons_ne_nil _ _

end LineScript
