import LineScript.Proofs.Code.Emission

/-!
# Indentation shows

Two programs with the same lines have the same code up to its indentation: the helper function, the
texts and the first failure depend on the lines alone, and not on the blocks between them.  Main
statement: if no line of one program is deeper in the other one, their codes are equal exactly if
all levels are (`codeOf_eq_iff`).

## Strategy

To conclude from equal codes to equal levels one could cut both codes into their lines, and would
have to know that no text of the program contains a line break.  Lengths are enough instead.  The
lines are ordered level by level (`CodeLine.Shallower`), so that each line of one code is at most as
long as its partner; if the codes are equally long, all pairs are (`length_intercalate_render`), and
an indent that is not empty makes equal lengths equal levels.  The same argument works for any
texts, those with line breaks among them.
-/

namespace LineScript

variable {settings : Settings}

/-! ## The same lines -/

/-- The failure of a line that there is no code for. -/
def Line.failure? (settings : Settings) (content : Line) : Option Failure :=
  match content.action.code settings with
  | .error cause => some (.generation cause.message content.span)
  | .ok _ => none

/-- The failure is that of the first line with one. -/
theorem failure_emit (settings : Settings) (layout : Layout) (statements : List Statement) :
    (emit settings layout statements).failure =
      (statements.filterMap Statement.line?).findSome? (·.failure? settings) := by
  induction statements generalizing layout with
  | nil => rfl
  | cons statement rest ih =>
      cases statement with
      | line content =>
          rw [List.filterMap_cons, Statement.line?, List.findSome?_cons, emit, Line.failure?]
          cases content.action.code settings with
          -- the first line without code is the failure, whatever is behind it
          | error cause => rfl
          | ok text => exact ih _
      | block name state => exact ih _
      | blockEnd state pictograph => exact ih _
      | arrow edge => exact ih _

variable {statements statements' : List Statement}

/-- There is no code for statements exactly if one of their lines fails, and the first of them is
the failure. -/
theorem codeOf_eq_error_iff {failure : Failure} :
    codeOf settings statements = .error failure ↔
      (statements.filterMap Statement.line?).findSome? (·.failure? settings) = some failure := by
  rw [codeOf, failure_emit]
  cases (statements.filterMap Statement.line?).findSome? (·.failure? settings) <;> simp

theorem preludeOf_congr
    (hlines : statements.filterMap Statement.line? = statements'.filterMap Statement.line?) :
    preludeOf settings statements = preludeOf settings statements' := by
  have hany (list : List Statement) : list.any Statement.isIndexSet =
      (list.filterMap Statement.line?).any fun content => (Statement.line content).isIndexSet := by
    rw [List.any_filterMap]
    congr 1
    funext statement
    cases statement <;> rfl
  rw [preludeOf, preludeOf, hany, hlines, ← hany]

/-- If there is code for every line, the texts that come out depend on the lines alone. -/
theorem texts_emit_congr {layout layout' : Layout}
    (hlines : statements.filterMap Statement.line? = statements'.filterMap Statement.line?)
    (hcode : (emit settings layout statements).failure = none)
    (hcode' : (emit settings layout' statements').failure = none) :
    (emit settings layout statements).lines.map CodeLine.text =
      (emit settings layout' statements').lines.map CodeLine.text := by
  have hcodes := forall₂_line_emit hcode
  have hcodes' := forall₂_line_emit hcode'
  rw [← hlines] at hcodes'
  generalize statements.filterMap Statement.line? = contents at hcodes hcodes'
  generalize (emit settings layout statements).lines = lines at hcodes ⊢
  generalize (emit settings layout' statements').lines = lines' at hcodes' ⊢
  induction hcodes generalizing lines' with
  | nil =>
      cases hcodes'
      rfl
  | @cons content line _ _ htext _ ih =>
      cases hcodes' with
      | @cons _ line' _ _ htext' hrest' =>
          -- both are the code of the same action
          have heq : line.text = line'.text := Except.ok.inj (htext.symm.trans htext')
          rw [List.map_cons, List.map_cons, heq, ih _ hrest']

/-! ## The length of code -/

/-- The line has the same text as the other one, and is not deeper. -/
structure CodeLine.Shallower (line line' : CodeLine) : Prop where
  text : line.text = line'.text
  level : line.level ≤ line'.level

namespace CodeLine

variable {indent : String} {line line' : CodeLine}

theorem length_render (indent : String) (line : CodeLine) :
    (line.render indent).length = line.level * indent.length + line.text.length := by
  rw [render, String.length_append, String.length_join]
  simp

theorem Shallower.length_le (hline : line.Shallower line') :
    (line.render indent).length ≤ (line'.render indent).length := by
  rw [length_render, length_render, hline.text]
  have hlevel := Nat.mul_le_mul_right indent.length hline.level
  omega

/-- Only the level can make a difference in length. -/
theorem Shallower.eq_of_length_eq (hline : line.Shallower line') (hindent : indent ≠ "")
    (hlength : (line.render indent).length = (line'.render indent).length) : line = line' := by
  rw [length_render, length_render, hline.text, Nat.add_right_cancel_iff] at hlength
  have hpos : 0 < indent.length := by
    rw [Nat.pos_iff_ne_zero]
    exact fun hzero => hindent (String.length_eq_zero_iff.mp hzero)
  have hlevel : line.level = line'.level := Nat.eq_of_mul_eq_mul_right hpos hlength
  have htext : line.text = line'.text := hline.text
  cases line
  cases line'
  simp_all

end CodeLine

/-- The joined lines are no longer than lines that are deeper, and shorter if one of them is. -/
theorem length_intercalate_render {indent : String} {lines lines' : List CodeLine}
    (hlines : List.Forall₂ CodeLine.Shallower lines lines') :
    ("\n".intercalate (lines.map (·.render indent))).length ≤
        ("\n".intercalate (lines'.map (·.render indent))).length ∧
      (indent ≠ "" →
        ("\n".intercalate (lines.map (·.render indent))).length =
          ("\n".intercalate (lines'.map (·.render indent))).length → lines = lines') := by
  induction hlines with
  | nil => exact ⟨Nat.le_refl _, fun _ _ => rfl⟩
  | @cons line line' rest rest' hline hrest ih =>
      have hle : (line.render indent).length ≤ (line'.render indent).length := hline.length_le
      cases hrest with
      | nil =>
          simp only [List.map_cons, List.map_nil, String.intercalate_singleton]
          refine ⟨hle, fun hindent hlength => ?_⟩
          rw [hline.eq_of_length_eq hindent hlength]
      | cons =>
          obtain ⟨hleRest, heqRest⟩ := ih
          simp only [List.map_cons, String.intercalate_cons_cons, String.length_append] at *
          -- two sums of ordered numbers are equal only if the numbers are
          refine ⟨by omega, fun hindent hlength => ?_⟩
          rw [hline.eq_of_length_eq hindent (by omega), heqRest hindent (by omega)]

/-- A line feed at the end, unless there is nothing in front of it, keeps texts apart. -/
theorem closed_injective {newline : Bool} {text text' : String}
    (heq : (if newline && !text.isEmpty then text ++ "\n" else text) =
      if newline && !text'.isEmpty then text' ++ "\n" else text') : text = text' := by
  cases newline with
  | false => simpa using heq
  | true =>
      by_cases htext : text = "" <;> by_cases htext' : text' = ""
      · rw [htext, htext']
      · have hempty := heq.symm
        simp [htext, htext'] at hempty
      · simp [htext, htext'] at heq
      · simpa [htext, htext'] using heq

/-- Lines of code are the same text as deeper ones only if they are the same lines, or if levels do
not show. -/
theorem renderLines_eq_iff {lines lines' : List CodeLine}
    (hlines : List.Forall₂ CodeLine.Shallower lines lines') :
    renderLines settings lines = renderLines settings lines' ↔
      settings.indent = "" ∨ lines = lines' := by
  constructor
  · intro heq
    by_cases hindent : settings.indent = ""
    · exact .inl hindent
    · obtain ⟨-, hequal⟩ := length_intercalate_render hlines
      exact .inr (hequal hindent (congrArg String.length (closed_injective heq)))
  · rintro (hindent | rfl)
    · -- an empty indent hides the levels
      have hrender (line : CodeLine) : line.render settings.indent = line.text := by
        rw [← String.toList_inj]
        simp [CodeLine.render, hindent]
      have htexts : lines.map CodeLine.text = lines'.map CodeLine.text := by
        rw [← List.forall₂_eq_eq_eq, List.forall₂_map_left_iff, List.forall₂_map_right_iff]
        exact hlines.imp fun _ _ hline => hline.text
      simp only [renderLines, hrender, htexts]
    · rfl

/-! ## The code of programs with the same lines -/

theorem forall₂_shallower {lines lines' : List CodeLine}
    (htexts : lines.map CodeLine.text = lines'.map CodeLine.text)
    (hlevels : List.Forall₂ (· ≤ ·) (lines.map CodeLine.level) (lines'.map CodeLine.level)) :
    List.Forall₂ CodeLine.Shallower lines lines' := by
  rw [← List.forall₂_eq_eq_eq, List.forall₂_map_left_iff, List.forall₂_map_right_iff] at htexts
  rw [List.forall₂_map_left_iff, List.forall₂_map_right_iff] at hlevels
  induction htexts with
  | nil => exact .nil
  | cons htext _ ih =>
      cases hlevels with
      | cons hlevel hrest => exact .cons ⟨htext, hlevel⟩ (ih hrest)

theorem eq_iff_levels_eq {lines lines' : List CodeLine}
    (htexts : lines.map CodeLine.text = lines'.map CodeLine.text) :
    lines = lines' ↔ lines.map CodeLine.level = lines'.map CodeLine.level := by
  have hzip (list : List CodeLine) :
      List.zipWith CodeLine.mk (list.map CodeLine.level) (list.map CodeLine.text) = list := by
    simp [List.zipWith_map_left, List.zipWith_map_right, List.zipWith_self]
  refine ⟨fun heq => heq ▸ rfl, fun hlevels => ?_⟩
  rw [← hzip lines, hlevels, htexts, hzip]

/-- **Indentation shows.**  If two programs have the same lines, and those of the first one are not
deeper, their codes are the same exactly if there is none, or if levels do not show, or if they are
the same. -/
theorem codeOf_eq_iff
    (hlines : statements.filterMap Statement.line? = statements'.filterMap Statement.line?)
    (hlevels : List.Forall₂ (· ≤ ·) (Layout.levels {} statements) (Layout.levels {} statements')) :
    codeOf settings statements = codeOf settings statements' ↔
      (codeOf settings statements').isOk = false ∨ settings.indent = "" ∨
        Layout.levels {} statements = Layout.levels {} statements' := by
  have hfailure :
      (emit settings {} statements).failure = (emit settings {} statements').failure := by
    rw [failure_emit, failure_emit, hlines]
  unfold codeOf
  cases hcode' : (emit settings {} statements').failure with
  | some failure =>
      rw [hcode'] at hfailure
      -- both stop at the same failure
      simp [hfailure, Except.isOk, Except.toBool]
  | none =>
      rw [hcode'] at hfailure
      -- same texts at levels that are ordered
      have htexts := texts_emit_congr hlines hfailure hcode'
      rw [← (levels_emit hfailure).1, ← (levels_emit hcode').1] at hlevels ⊢
      have hshallower := forall₂_shallower htexts hlevels
      rw [← eq_iff_levels_eq htexts, hfailure, ← preludeOf_congr hlines]
      have hprelude : List.Forall₂ CodeLine.Shallower (preludeOf settings statements)
          (preludeOf settings statements) :=
        List.forall₂_same.mpr fun _ _ => ⟨rfl, Nat.le_refl _⟩
      have hall := List.rel_append hprelude hshallower
      simp [renderLines_eq_iff hall, Except.isOk, Except.toBool]

end LineScript
