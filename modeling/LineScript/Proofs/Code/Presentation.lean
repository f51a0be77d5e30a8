import LineScript.Proofs.Code.Emission

/-!
# Settings of presentation

Of the settings three only concern how code looks: the text of one level of indentation, a line feed
at the end, and whether assignments to elements go through a helper function.  The other two, the
names that become calls and the names of exceptions, have a say in the texts of the code.

Main statement: two settings that agree on these two lead to the same failure, or to the same lines
but for the helper function and the assignments that may use it (`generate_alike`).

## Strategy

Two runs are compared statement by statement.  They meet a line that there is no code for at the
same time, because what settings do to the code of an action never decides whether there is any
(`Action.code_alike`), and the layout does not ask for settings at all (`emit_alike`).

The lines of the two codes can then be compared one by one (`bodyLines_alike`).  Their levels are
those of the layout, and their texts the codes of the same action, which differ only for assignments
to elements.  Rendered code is never taken apart for this: both codes are given as lists of lines,
and the line feed at the end is dealt with by comparing the settings with themselves, but for that
one field (`code_generate_eq_closed`).
-/

namespace LineScript

/-- The settings agree but for presentation. -/
structure Settings.AgreeOnMeaning (settings settings' : Settings) : Prop where
  zeroArgCalls : settings.zeroArgCalls = settings'.zeroArgCalls
  exceptionNames : settings.exceptionNames = settings'.exceptionNames

/-- The action assigns to an element, and only one of the settings has a helper function for it. -/
def Action.HelperDiffers (settings settings' : Settings) (action : Action) : Prop :=
  (∃ container index value, action = .indexSet container index value) ∧
    settings.runtimeHelpers ≠ settings'.runtimeHelpers

/-- Lines of code for the same line of a program, under two settings. -/
structure CodeLine.Alike (settings settings' : Settings) (action : Action)
    (line line' : CodeLine) : Prop where
  level : line.level = line'.level
  text : line.text = line'.text ∨ action.HelperDiffers settings settings'

/-- With the same choice about the helper function, lines that are alike are the same. -/
theorem CodeLine.Alike.eq {settings settings' : Settings} {action : Action} {line line' : CodeLine}
    (halike : CodeLine.Alike settings settings' action line line')
    (hhelper : settings.runtimeHelpers = settings'.runtimeHelpers) : line = line' := by
  have hlevel : line.level = line'.level := halike.level
  have htext : line.text = line'.text := by
    rcases halike.text with htext | hdiffers
    · exact htext
    · exact absurd hhelper hdiffers.2
  cases line
  cases line'
  cases hlevel
  cases htext
  rfl

/-- The lines of the code of a program, without those of the helper function. -/
def Program.bodyLines (settings : Settings) (program : Program) : List CodeLine :=
  (emit settings {} program.statements).lines

variable {settings settings' : Settings}

/-! ## One action -/

theorem Code.assignedCode_congr (hagree : settings.AgreeOnMeaning settings') (value : Expr) :
    assignedCode settings value = assignedCode settings' value := by
  unfold assignedCode Settings.isZeroArgCall
  rw [hagree.zeroArgCalls]

/-- The helper function is the only difference that settings of presentation make. -/
theorem Action.code_congr (hagree : settings.AgreeOnMeaning settings') {action : Action}
    (hhelper : ¬ action.HelperDiffers settings settings') :
    action.code settings = action.code settings' := by
  cases action with
  | set name value => rw [Action.code, Action.code, Code.assignedCode_congr hagree]
  | indexSet container index value =>
      -- the helper function is either used in both codes or in none
      have hsame : settings.runtimeHelpers = settings'.runtimeHelpers := by
        by_contra hdiffer
        exact hhelper ⟨⟨container, index, value, rfl⟩, hdiffer⟩
      rw [Action.code, Action.code, hsame]
  | exceptBlock exception =>
      cases exception with
      | none => rfl
      | some name =>
          rw [Action.code, Action.code, Settings.exceptionName, Settings.exceptionName,
            hagree.exceptionNames]
  | print value? | returnValue value? => cases value? <;> rfl
  | global names => cases names <;> rfl
  | arith op args =>
      rcases args with - | ⟨result, - | ⟨left, - | ⟨right, - | ⟨fourth, others⟩⟩⟩⟩
      all_goals rfl
  | _ => rfl

/-- Either there is no code for an action under both settings, for the same cause, or there is code
under both, and it is the same but for the helper function. -/
theorem Action.code_alike (hagree : settings.AgreeOnMeaning settings') (action : Action) :
    (∃ cause, action.code settings = .error cause ∧ action.code settings' = .error cause) ∨
      ∃ text text', action.code settings = .ok text ∧ action.code settings' = .ok text' ∧
        (text = text' ∨ action.HelperDiffers settings settings') := by
  by_cases hhelper : action.HelperDiffers settings settings'
  · obtain ⟨container, index, value, rfl⟩ := hhelper.1
    -- an assignment to an element has code under all settings
    have hcode (settings : Settings) :
        ∃ text, (Action.indexSet container index value).code settings = .ok text := by
      rw [Action.code]
      split
      · exact ⟨_, rfl⟩
      · exact ⟨_, rfl⟩
    obtain ⟨text, htext⟩ := hcode settings
    obtain ⟨text', htext'⟩ := hcode settings'
    exact .inr ⟨text, text', htext, htext', .inr hhelper⟩
  · have hsame := Action.code_congr hagree hhelper
    cases hcode : action.code settings' with
    | error cause => exact .inl ⟨cause, hsame.trans hcode, rfl⟩
    | ok text => exact .inr ⟨text, text, hsame.trans hcode, rfl, .inl rfl⟩

/-! ## All statements -/

/-- Both runs stop at the same statement with the same failure, and with the same layout. -/
theorem emit_alike (hagree : settings.AgreeOnMeaning settings') (layout : Layout)
    (statements : List Statement) :
    (emit settings layout statements).failure = (emit settings' layout statements).failure ∧
      (emit settings layout statements).layout = (emit settings' layout statements).layout := by
  induction statements generalizing layout with
  | nil => exact ⟨rfl, rfl⟩
  | cons statement rest ih =>
      cases statement with
      | line content =>
          -- both runs stop here, or both go on with the same layout
          rcases content.action.code_alike hagree with
            ⟨cause, hcode, hcode'⟩ | ⟨text, text', hcode, hcode', -⟩
          · simp only [emit, hcode, hcode', and_self]
          · simp only [emit, hcode, hcode']
            exact ih (layout.after (.line content))
      | block name state => exact ih (layout.after (.block name state))
      | blockEnd state pictograph => exact ih (layout.after (.blockEnd state pictograph))
      | arrow edge => exact ih (layout.after (.arrow edge))

theorem forall₂_getElem? {α β : Type} {related : α → β → Prop} {front : List α} {back : List β}
    (hall : List.Forall₂ related front back) {k : Nat} {a : α} {b : β} (ha : front[k]? = some a)
    (hb : back[k]? = some b) : related a b := by
  obtain ⟨hk, rfl⟩ := List.getElem?_eq_some_iff.mp ha
  obtain ⟨hk', rfl⟩ := List.getElem?_eq_some_iff.mp hb
  exact hall.get hk hk'

/-- If there is code for every line, the lines that come out are alike, one by one. -/
theorem bodyLines_alike (hagree : settings.AgreeOnMeaning settings') {program : Program}
    (hcode : (emit settings {} program.statements).failure = none) :
    (program.bodyLines settings).length = program.lines.length ∧
      (program.bodyLines settings').length = program.lines.length ∧
      ∀ (k : Nat) (content : Line) (line line' : CodeLine), program.lines[k]? = some content →
        (program.bodyLines settings)[k]? = some line →
        (program.bodyLines settings')[k]? = some line' →
        CodeLine.Alike settings settings' content.action line line' := by
  have hcode' : (emit settings' {} program.statements).failure = none := by
    rw [← (emit_alike hagree {} program.statements).1]
    exact hcode
  have htexts := forall₂_line_emit hcode
  have htexts' := forall₂_line_emit hcode'
  have hlevels : (program.bodyLines settings).map CodeLine.level =
      (program.bodyLines settings').map CodeLine.level :=
    (levels_emit hcode).1.trans (levels_emit hcode').1.symm
  refine ⟨htexts.length_eq.symm, htexts'.length_eq.symm, ?_⟩
  intro k content line line' hcontent hline hline'
  constructor
  · -- the levels are those of the layout, for both
    have hlevel := congrArg (fun levels => levels[k]?) hlevels
    simp only [List.getElem?_map, hline, hline', Option.map_some] at hlevel
    exact Option.some.inj hlevel
  · -- the texts are the codes of one action
    have htext : content.action.code settings = .ok line.text :=
      forall₂_getElem? htexts hcontent hline
    have htext' : content.action.code settings' = .ok line'.text :=
      forall₂_getElem? htexts' hcontent hline'
    rcases content.action.code_alike hagree with
      ⟨cause, herror, -⟩ | ⟨text, other, hok, hok', hsame⟩
    · rw [htext] at herror
      cases herror
    · rw [htext] at hok
      rw [htext'] at hok'
      cases hok
      cases hok'
      exact hsame

/-! ## Programs -/

/-- The text of code with the line feed that it may end with. -/
def Settings.closed (settings : Settings) (text : String) : String :=
  if settings.trailingNewline && !text.isEmpty then text ++ "\n" else text

theorem renderLines_eq_closed (settings : Settings) (lines : List CodeLine) :
    renderLines settings lines =
      settings.closed (renderLines { settings with trailingNewline := false } lines) := by
  simp [renderLines, Settings.closed]

/-- Both runs fail with the same failure, or both have code. -/
theorem generate_cases (hagree : settings.AgreeOnMeaning settings') (program : Program) :
    (∃ failure, (program.generate settings).code = .error failure ∧
      (program.generate settings').code = .error failure) ∨
    (emit settings {} program.statements).failure = none ∧
      (program.generate settings).code = .ok (renderLines settings
        (preludeOf settings program.statements ++ program.bodyLines settings)) ∧
      (program.generate settings').code = .ok (renderLines settings'
        (preludeOf settings' program.statements ++ program.bodyLines settings')) := by
  have hfailure := (emit_alike hagree {} program.statements).1
  rw [code_generate, code_generate, codeOf, codeOf, ← hfailure]
  cases (emit settings {} program.statements).failure with
  | some failure => exact .inl ⟨failure, rfl, rfl⟩
  | none => exact .inr ⟨rfl, rfl, rfl⟩

/-- Without the line feed at its end the code is the same. -/
theorem code_generate_eq_closed (settings : Settings) (program : Program) :
    (program.generate settings).code =
      (program.generate { settings with trailingNewline := false }).code.map settings.closed := by
  let bare := { settings with trailingNewline := false }
  have hagree : settings.AgreeOnMeaning bare := ⟨rfl, rfl⟩
  rcases generate_cases hagree program with ⟨failure, hcode, hbare⟩ | ⟨hemit, hcode, hbare⟩
  · rw [hcode, hbare]
    rfl
  · obtain ⟨hlength, hlength', halike⟩ := bodyLines_alike hagree hemit
    -- the line feed at the end changes no line
    have hsame : program.bodyLines settings = program.bodyLines bare := by
      apply List.ext_getElem (hlength.trans hlength'.symm)
      intro k hk hk'
      have hk'' : k < program.lines.length := hlength ▸ hk
      have hline := halike k _ _ _ (List.getElem?_eq_getElem hk'') (List.getElem?_eq_getElem hk)
        (List.getElem?_eq_getElem hk')
      exact hline.eq rfl
    rw [hcode, hbare, renderLines_eq_closed, hsame]
    rfl

/-- **Presentation is only presentation.**  Under two settings that agree but for presentation a
program fails with the same failure, or has code under both.  Its code then consists of the lines of
the helper function, as far as there are any, and of one line for each line of the program, at the
same level and with the same text under both settings; only an assignment to an element may have
another text, if one of the settings has no helper function.  The level behind the last line is the
same, and the line feed at the end is all that the setting for it adds. -/
theorem generate_alike (hagree : settings.AgreeOnMeaning settings') (program : Program) :
    ((∃ failure, (program.generate settings).code = .error failure ∧
        (program.generate settings').code = .error failure) ∨
      ∃ lines lines', (program.generate settings).code =
          .ok (renderLines settings (preludeOf settings program.statements ++ lines)) ∧
        (program.generate settings').code =
          .ok (renderLines settings' (preludeOf settings' program.statements ++ lines')) ∧
        lines.length = program.lines.length ∧ lines'.length = program.lines.length ∧
        ∀ (k : Nat) (content : Line) (line line' : CodeLine), program.lines[k]? = some content →
          lines[k]? = some line → lines'[k]? = some line' →
          CodeLine.Alike settings settings' content.action line line') ∧
    (program.generate settings).depth = (program.generate settings').depth ∧
    (program.generate settings).code =
      (program.generate { settings with trailingNewline := false }).code.map settings.closed := by
  refine ⟨?_, ?_, code_generate_eq_closed settings program⟩
  · rcases generate_cases hagree program with hfails | ⟨hemit, hcode, hcode'⟩
    · exact .inl hfails
    · exact .inr ⟨_, _, hcode, hcode', bodyLines_alike hagree hemit⟩
  · rw [depth_generate, depth_generate, (emit_alike hagree {} program.statements).2]

/-- Assignments to elements in a block that stays open, with the helper function and without it. -/
theorem generate_alike_of_element :
    let line (action : Action) : Statement := .line ⟨action, .continued, none, 0, {}⟩
    let element := Action.indexSet "x" (.number "0") .none
    let program : Program := ⟨[⟨[⟨[line element, line (.whileLoop (.bool true)), line element]⟩]⟩]⟩
    let settings := { Settings.default with indent := "\t" }
    let settings' :=
      { Settings.default with indent := "", runtimeHelpers := false, trailingNewline := true }
    settings.AgreeOnMeaning settings' ∧
      (program.generate settings).code = .ok ("\n".intercalate (helperLines.map (·.render "\t") ++
        ["_catapillar_index_set(\x27x\x27, x, 0, None)", "while True:",
          "\t_catapillar_index_set(\x27x\x27, x, 0, None)"])) ∧
      (program.generate settings').code = .ok "x[0] = None\nwhile True:\nx[0] = None\n" ∧
      (program.generate settings).depth = (program.generate settings').depth := by
  intro line element program settings settings'
  have hagree : settings.AgreeOnMeaning settings' := ⟨rfl, rfl⟩
  refine ⟨hagree, by with_unfolding_all rfl, by with_unfolding_all rfl, ?_⟩
  obtain ⟨-, hdepth, -⟩ := generate_alike hagree program
  exact hdepth

end LineScript
