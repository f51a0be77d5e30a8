import LineScript.Proofs.Blocks.Levels
import LineScript.Proofs.Program.Parsed

/-!
# Balanced programs

A program balances if the reader has no remark on its blocks.  Then no block is open after its
last line (`openBlocksAfter_of_balanced`).  Main statement: the generated code of a balanced
program without named blocks shows the blocks of the program in its indentation, and ends at the
outermost level, exactly if every line is taken alike by the reader and the generator
(`emitted_levels_iff_takenAlike`).

## Strategy

The comparison of the two trackers in `Levels.lean` does not ask for balance: it says at which line
the level of the code first differs from the number of blocks around the line.  What balance adds
is the end of the program.

* **Where the code stops early.**  An expression may have no code, and the generator emits nothing
  behind it.  The lines before it are a prefix of those of the whole program, so the first half of
  the statement needs no complete code.
* **Where the code is complete.**  The levels of the code are those of the trackers
  (`levels_emit`), and equality is the condition of `levels_eq_enclosings_iff`.
* **At the end.**  The depth is the number of open blocks, which is zero in a balanced program.

Balance alone is not enough.  Behind the terminator of an inner statement a branch may continue
the outer one: the reader accepts that, while the generator takes the terminator for the outer
one's (`levels_differ_behind_inner_terminator`).
-/

namespace LineScript

/-- The remark is one on blocks that do not balance. -/
def Diagnostic.IsOnBlocks (diagnostic : Diagnostic) : Prop :=
  (∃ token : LineToken, diagnostic = token.strayEndDiagnostic) ∨
    ∃ (token : LineToken) (count : Nat), diagnostic = token.openBlocksDiagnostic count

theorem strayEnds_snd (blocks : OpenBlocks) (lines : List (LineToken × Statement)) :
    (strayEnds blocks lines).2 = (lines.map Prod.snd).foldl OpenBlocks.after blocks := by
  induction lines generalizing blocks with
  | nil => rfl
  | cons line rest ih =>
      obtain ⟨token, statement⟩ := line
      rw [List.map_cons, List.foldl_cons, ← ih, strayEnds]
      cases strayEnds (blocks.after statement) rest
      simp only
      split <;> rfl

/-- Blocks that are open after all lines are remarked on. -/
theorem exists_mem_blockDiagnostics {lines : List (LineToken × Statement)}
    (hopen : openBlocksAfter (lines.map Prod.snd) ≠ []) :
    ∃ diagnostic ∈ blockDiagnostics lines, diagnostic.IsOnBlocks := by
  have hfinal : (strayEnds [] lines).2 = openBlocksAfter (lines.map Prod.snd) :=
    strayEnds_snd [] lines
  obtain ⟨branch, outer, hcons⟩ := List.exists_cons_of_ne_nil hopen
  have hne : lines ≠ [] := by
    rintro rfl
    exact hopen rfl
  refine ⟨(lines.getLast hne).1.openBlocksDiagnostic (branch :: outer).length, ?_,
    .inr ⟨_, _, rfl⟩⟩
  unfold blockDiagnostics
  rw [hcons] at hfinal
  simp [hfinal, List.getLast?_eq_some_getLast hne]

/-- In a balanced program no block is open after the last line. -/
theorem openBlocksAfter_of_balanced {source : String} {parsed : Parsed}
    (hparse : parse source = .ok parsed)
    (hbalanced : ∀ diagnostic ∈ parsed.diagnostics, ¬ diagnostic.IsOnBlocks) :
    openBlocksAfter parsed.program.statements = [] := by
  obtain ⟨lines, -, rfl⟩ := parse_eq_ok_iff.mp hparse
  rw [statements_programOf]
  by_contra hopen
  obtain ⟨diagnostic, hmem, hblocks⟩ := exists_mem_blockDiagnostics hopen
  exact hbalanced diagnostic (List.mem_append_right _ hmem) hblocks

/-- **Indentation shows the blocks.**  For a balanced program without named blocks: if all lines
are taken alike, every line that comes out is at the level of the number of blocks around it, and
complete code ends at the outermost level.  If the levels of complete code are these, all lines
are taken alike. -/
theorem emitted_levels_iff_takenAlike (settings : Settings) {source : String} {parsed : Parsed}
    (hparse : parse source = .ok parsed)
    (hbalanced : ∀ diagnostic ∈ parsed.diagnostics, ¬ diagnostic.IsOnBlocks)
    (hunnamed : Unnamed parsed.program.statements) :
    (AllTakenAlike parsed.program.statements →
      (emit settings {} parsed.program.statements).lines.map CodeLine.level <+:
        enclosings [] parsed.program.statements) ∧
    ∀ code, (parsed.program.generate settings).code = .ok code →
      (AllTakenAlike parsed.program.statements ↔
        (emit settings {} parsed.program.statements).lines.map CodeLine.level =
          enclosings [] parsed.program.statements) ∧
      (AllTakenAlike parsed.program.statements → (parsed.program.generate settings).depth = 0) := by
  have hiff := levels_eq_enclosings_iff hunnamed
  refine ⟨fun halike => ?_, fun code hcode => ?_⟩
  · -- code that stops at a failure is still the beginning of the code of all lines
    rw [← hiff.mpr halike]
    exact levels_emit_prefix settings {} _
  · obtain ⟨hlevels, hlayout⟩ := levels_emit (code_generate_eq_ok_iff.mp hcode).1
    refine ⟨by rw [hlevels, hiff], fun halike => ?_⟩
    -- the depth is read off the trackers, which agree, and no block is open
    calc (parsed.program.generate settings).depth
        = (layoutAfter parsed.program.statements).depth := by
          rw [depth_generate, hlayout]
          rfl
      _ = (openBlocksAfter parsed.program.statements).length :=
          depth_eq_length_openBlocks hunnamed halike
      _ = 0 := by rw [openBlocksAfter_of_balanced hparse hbalanced, List.length_nil]

/-- A branch in place of another one, and one behind a terminator. -/
theorem emitted_levels_of_two_chains :
    ∃ parsed, parse "if a\nelse\ntry\nend\nfinally\nend\nend" = .ok parsed ∧
      (∀ diagnostic ∈ parsed.diagnostics, ¬ diagnostic.IsOnBlocks) ∧
      Unnamed parsed.program.statements ∧
      AllTakenAlike parsed.program.statements ∧
      (parsed.program.generate default).code.isOk = true ∧
      (emit default {} parsed.program.statements).lines.map CodeLine.level = [0, 0, 1, 1] ∧
      (parsed.program.generate default).depth = 0 := by
  have hfacts : ((parse "if a\nelse\ntry\nend\nfinally\nend\nend").toOption.map fun parsed =>
      (parsed.diagnostics, decide (Unnamed parsed.program.statements),
        (parsed.program.generate default).code.isOk,
        enclosings [] parsed.program.statements,
        Layout.levels {} parsed.program.statements)) =
      some ([], true, true, [0, 0, 1, 1], [0, 0, 1, 1]) := by
    decide +kernel
  -- everything about the program is decided in one run
  obtain ⟨parsed, hparse, hfacts⟩ := exists_parsed hfacts
  simp only [Prod.mk.injEq, decide_eq_true_eq] at hfacts
  obtain ⟨hdiagnostics, hunnamed, hok, henclosings, hlevels⟩ := hfacts
  have hbalanced : ∀ diagnostic ∈ parsed.diagnostics, ¬ diagnostic.IsOnBlocks := by
    simp [hdiagnostics]
  have halike : AllTakenAlike parsed.program.statements :=
    (levels_eq_enclosings_iff hunnamed).mp (hlevels.trans henclosings.symm)
  cases hcode : (parsed.program.generate default).code with
  | error cause =>
      rw [hcode] at hok
      cases hok
  | ok code =>
      obtain ⟨-, hall⟩ := emitted_levels_iff_takenAlike default hparse hbalanced hunnamed
      obtain ⟨hiff, hdepth⟩ := hall code hcode
      exact ⟨parsed, hparse, hbalanced, hunnamed, halike, hcode ▸ rfl,
        (hiff.mp halike).trans henclosings, hdepth halike⟩

/-- Behind the terminator of an inner statement the last branch continues the outer one, which no
block encloses, but comes out one level deep. -/
theorem levels_differ_behind_inner_terminator :
    ∃ parsed, parse "try\ntry\nend\nfinally\nend" = .ok parsed ∧
      parsed.diagnostics = [] ∧
      Unnamed parsed.program.statements ∧
      (parsed.program.generate default).code.isOk = true ∧
      enclosings [] parsed.program.statements = [0, 1, 0] ∧
      (emit default {} parsed.program.statements).lines.map CodeLine.level = [0, 1, 1] ∧
      (parsed.program.generate default).depth = 1 := by
  have hfacts : ((parse "try\ntry\nend\nfinally\nend").toOption.map fun parsed =>
      ((parsed.diagnostics, decide (Unnamed parsed.program.statements),
        (parsed.program.generate default).code.isOk),
        enclosings [] parsed.program.statements,
        (emit default {} parsed.program.statements).lines.map CodeLine.level,
        (parsed.program.generate default).depth)) =
      some (([], true, true), [0, 1, 0], [0, 1, 1], 1) := by
    decide +kernel
  obtain ⟨parsed, hparse, hfacts⟩ := exists_parsed hfacts
  simp only [Prod.mk.injEq, decide_eq_true_eq] at hfacts
  obtain ⟨⟨hdiagnostics, hunnamed, hok⟩, hlevels⟩ := hfacts
  exact ⟨parsed, hparse, hdiagnostics, hunnamed, hok, hlevels⟩

end LineScript
