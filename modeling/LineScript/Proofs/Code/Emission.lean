import LineScript.Code.Emit
import Mathlib.Data.List.Forall2

/-!
# Emitted lines

Where the lines of generated code are indented to does not depend on their texts: the levels of
the lines that come out are those that the layout gives to the lines of the program
(`levels_emit`), as far as there is code for them.  Each line of the program becomes one line of
code, in the order of the program (`forall₂_line_emit`).

Everything here goes by induction along the statements, with the layout in front of them left open.
Later files never look at `emit` again: they take the levels from the layout and the texts from the
code of single actions, and `code_generate_eq_ok_iff` puts the two together.
-/

namespace LineScript

/-- The layout after statements. -/
def layoutAfter (statements : List Statement) : Layout := statements.foldl Layout.after {}

@[simp] theorem layoutAfter_concat (statements : List Statement) (statement : Statement) :
    layoutAfter (statements ++ [statement]) = (layoutAfter statements).after statement := by
  simp [layoutAfter]

/-- For each line among statements, the level of its code. -/
def Layout.levels (layout : Layout) : List Statement → List Nat
  | [] => []
  | .line content :: rest =>
      layout.levelOf content.action.word :: (layout.after (.line content)).levels rest
  | statement :: rest => (layout.after statement).levels rest

/-- The lines that come out have the levels of the first lines of the program. -/
theorem levels_emit_prefix (settings : Settings) (layout : Layout) (statements : List Statement) :
    (emit settings layout statements).lines.map CodeLine.level <+: layout.levels statements := by
  induction statements generalizing layout with
  | nil => exact List.nil_prefix
  | cons statement rest ih =>
      cases statement with
      | line content =>
          unfold emit Layout.levels
          split
          · exact List.nil_prefix
          · exact List.cons_prefix_cons.mpr ⟨rfl, ih _⟩
      | block name state => exact ih _
      | blockEnd state pictograph => exact ih _
      | arrow edge => exact ih _

/-- If there is code for every line, all lines come out, each at its level. -/
theorem levels_emit {settings : Settings} {layout : Layout} {statements : List Statement}
    (hcode : (emit settings layout statements).failure = none) :
    (emit settings layout statements).lines.map CodeLine.level = layout.levels statements ∧
      (emit settings layout statements).layout = statements.foldl Layout.after layout := by
  induction statements generalizing layout with
  | nil => exact ⟨rfl, rfl⟩
  | cons statement rest ih =>
      cases statement with
      | line content =>
          -- a line without code would be the failure
          unfold emit at hcode ⊢
          split at hcode
          · cases hcode
          · obtain ⟨hlevels, hlayout⟩ := ih hcode
            exact ⟨congrArg (_ :: ·) hlevels, hlayout⟩
      | block name state => exact ih hcode
      | blockEnd state pictograph => exact ih hcode
      | arrow edge => exact ih hcode

theorem Layout.levels_append (layout : Layout) (front back : List Statement) :
    layout.levels (front ++ back) =
      layout.levels front ++ (front.foldl Layout.after layout).levels back := by
  induction front generalizing layout with
  | nil => rfl
  | cons statement rest ih =>
      cases statement with
      | line content => exact congrArg (_ :: ·) (ih _)
      | block name state => exact ih _
      | blockEnd state pictograph => exact ih _
      | arrow edge => exact ih _

/-- If there is code for every line, the lines that come out are those of the program in their
order, and each has the code of its action as its text. -/
theorem forall₂_line_emit {settings : Settings} {layout : Layout} {statements : List Statement}
    (hcode : (emit settings layout statements).failure = none) :
    List.Forall₂ (fun content line => content.action.code settings = .ok line.text)
      (statements.filterMap Statement.line?) (emit settings layout statements).lines := by
  induction statements generalizing layout with
  | nil => exact .nil
  | cons statement rest ih =>
      cases statement with
      | line content =>
          unfold emit at hcode ⊢
          split at hcode
          · cases hcode
          -- there is code for this line, and the failure can only come later
          next text htext => exact .cons htext (ih hcode)
      | block name state => exact ih hcode
      | blockEnd state pictograph => exact ih hcode
      | arrow edge => exact ih hcode

/-- The code of statements, or the first failure. -/
def codeOf (settings : Settings) (statements : List Statement) : Except Failure String :=
  match (emit settings {} statements).failure with
  | some failure => .error failure
  | none => .ok (renderLines settings
      (preludeOf settings statements ++ (emit settings {} statements).lines))

theorem code_generate (settings : Settings) (program : Program) :
    (program.generate settings).code = codeOf settings program.statements := by
  unfold Program.generate codeOf
  simp only
  cases (emit settings {} program.statements).failure <;> rfl

/-- There is code for a program exactly if there is code for each of its lines. -/
theorem code_generate_eq_ok_iff {settings : Settings} {program : Program} {code : String} :
    (program.generate settings).code = .ok code ↔
      (emit settings {} program.statements).failure = none ∧
        code = renderLines settings (preludeOf settings program.statements ++
          (emit settings {} program.statements).lines) := by
  rw [code_generate, codeOf]
  cases (emit settings {} program.statements).failure with
  | some failure => simp
  | none => simp [eq_comm]

theorem depth_generate (settings : Settings) (program : Program) :
    (program.generate settings).depth = (emit settings {} program.statements).layout.depth := by
  unfold Program.generate
  simp only
  split <;> rfl

end LineScript
