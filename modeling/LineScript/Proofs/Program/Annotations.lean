import LineScript.Compile
import LineScript.Proofs.Code.Emission
import LineScript.Proofs.Program.Parsed
import LineScript.Proofs.Source.Findings

/-!
# Annotations have no effect

A span is copied from a line to the statement on it, and from there to a failure or a remark.  The
state and the pictograph in front of a line are copied to its statement, and the state cuts the
program into segments as well.  No code, no remark and no failure depends on them.  Main statement:
compiling findings without their annotations changes nothing but the spans of the outcome
(`compileFindings_bare`).

Each function between the findings and the code has a lemma of its own, which says that forgetting
annotations before it is the same as forgetting them after it: for reading a line, for the names
that it declares, for the remarks on blocks, for the layout, and for emitting code.  The lemmas for
single lines are equations by computation; those for lists of lines are inductions that go the same
way as the functions.  Segments need no lemma, since code is made from the statements of a program
whatever segments they lie in.
-/

namespace LineScript

/-! ## Forgetting annotations -/

/-- The line without its ornaments and its place among the bytes of the source. -/
def Line.bare (line : Line) : Line :=
  { line with state := .continued, pictograph := none, span := {} }

/-- The arrow without its state. -/
def Arrow.bare (edge : Arrow) : Arrow := { edge with state := .continued }

/-- The statement without the annotations of its line. -/
def Statement.bare : Statement → Statement
  | .line content => .line content.bare
  | .block name _ => .block name .continued
  | .blockEnd _ _ => .blockEnd .continued none
  | .arrow edge => .arrow edge.bare

/-- The failure without its place among the bytes of the source. -/
def Failure.withoutSpan : Failure → Failure
  | .parse message _ => .parse message {}
  | .grouping _ => .grouping {}
  | .generation message span => .generation message (span.map fun _ => {})
  | .settings => .settings
  | .file => .file

/-- The line token and its statement without annotations. -/
def bareLine (line : LineToken × Statement) : LineToken × Statement := (line.1.bare, line.2.bare)

/-- What is compiled, without the places of the remarks. -/
def Compiled.withoutSpans (compiled : Compiled) : Compiled :=
  { compiled with diagnostics := compiled.diagnostics.map Diagnostic.withoutSpan }

/-! ## Reading -/

theorem ExprError.withoutSpan_at (cause : ExprError) (span : Span) :
    (cause.at span).withoutSpan = cause.at {} := by
  cases cause <;> rfl

theorem LineError.withoutSpan_at (cause : LineError) (span : Span) :
    (cause.at span).withoutSpan = cause.at {} := by
  cases cause with
  | expression cause => exact cause.withoutSpan_at span
  | _ => rfl

/-- The ends of an arrow do not depend on ornaments. -/
theorem readArrow?_bare (token : LineToken) :
    readArrow? token.bare = (readArrow? token).map (Option.map Arrow.bare) := by
  have haction : token.bare.action = token.action := rfl
  have hargs : token.bare.args = token.args := rfl
  unfold readArrow?
  rw [haction, hargs]
  split
  · rfl
  · simp only
    split
    · rfl
    · split <;> rfl
  · rfl

theorem readHeader_bare (token : LineToken) (name : String) :
    readHeader token.bare name = (readHeader token name).map Statement.bare := by
  unfold readHeader
  split
  · rfl
  · rfl
  · rfl
  · split <;> rfl

theorem readStatement_bare (known : KnownNames) (token : LineToken) :
    readStatement known token.bare =
      (readStatement known token).map Statement.bare := by
  have haction : token.bare.action = token.action := rfl
  have hargs : token.bare.args = token.args := rfl
  have hheader : token.bare.headerName? = token.headerName? := rfl
  unfold readStatement
  rw [haction, hargs, readArrow?_bare, hheader]
  split
  · rfl
  · -- an arrow carries the state of its line
    cases readArrow? token with
    | error cause => rfl
    | ok arrow? =>
        cases arrow? with
        | some arrow => rfl
        | none =>
            cases token.headerName? with
            | some name => exact readHeader_bare token name
            | none =>
                cases ActionWord.ofSpelling? token.action with
                | none => rfl
                | some word =>
                    -- the arguments alone are read, and the annotations are put around the action
                    change (readAction known word token.args >>= fun action =>
                      Except.ok (token.bare.statement action)) =
                        (readAction known word token.args >>= fun action =>
                          Except.ok (token.statement action)).map Statement.bare
                    cases readAction known word token.args <;> rfl

theorem Statement.declares_bare (statement : Statement) :
    statement.bare.declares = statement.declares := by
  cases statement <;> rfl

theorem readLines_bare (known : KnownNames) (tokens : List LineToken) :
    readLines known (tokens.map LineToken.bare) =
      ((readLines known tokens).map (List.map bareLine)).mapError Failure.withoutSpan := by
  induction tokens generalizing known with
  | nil => rfl
  | cons token rest ih =>
      rw [List.map_cons, readLines, readLines, readStatement_bare]
      cases readStatement known token with
      | error cause =>
          -- the failure is at the span of the line
          have hcause : (cause.at token.span).withoutSpan = cause.at {} := cause.withoutSpan_at _
          simp only [Except.map, Except.mapError, hcause]
          rfl
      | ok statement =>
          simp only [Except.map]
          rw [statement.declares_bare, ih]
          cases readLines (known.declareAll statement.declares) rest <;> rfl

/-! ## Blocks -/

theorem Statement.blockEvent?_bare (statement : Statement) :
    statement.bare.blockEvent? = statement.blockEvent? := by
  cases statement <;> rfl

theorem OpenBlocks.after_bare (blocks : OpenBlocks) (statement : Statement) :
    blocks.after statement.bare = blocks.after statement := by
  rw [OpenBlocks.after, statement.blockEvent?_bare, OpenBlocks.after]

theorem strayEnds_bare (blocks : OpenBlocks) (lines : List (LineToken × Statement)) :
    strayEnds blocks (lines.map bareLine) =
      ((strayEnds blocks lines).1.map Diagnostic.withoutSpan, (strayEnds blocks lines).2) := by
  induction lines generalizing blocks with
  | nil => rfl
  | cons line rest ih =>
      obtain ⟨token, statement⟩ := line
      simp only [List.map_cons, bareLine, strayEnds, OpenBlocks.after_bare,
        Statement.blockEvent?_bare]
      rw [ih (blocks.after statement)]
      split <;> rfl

theorem blockDiagnostics_bare (lines : List (LineToken × Statement)) :
    blockDiagnostics (lines.map bareLine) =
      (blockDiagnostics lines).map Diagnostic.withoutSpan := by
  unfold blockDiagnostics
  rw [strayEnds_bare, List.getLast?_map]
  -- the remarks on strays, and the blocks that are left open
  generalize strayEnds [] lines = ends
  obtain ⟨diagnostics, final⟩ := ends
  cases final with
  | nil => rfl
  | cons block outer =>
      cases lines.getLast? with
      | none => rfl
      | some line =>
          have hremark (count : Nat) : line.1.bare.openBlocksDiagnostic count =
              (line.1.openBlocksDiagnostic count).withoutSpan := rfl
          simp only [Option.map_some, bareLine, hremark, List.map_append, List.map_cons,
            List.map_nil]

/-! ## Generating -/

theorem Layout.after_bare (layout : Layout) (statement : Statement) :
    layout.after statement.bare = layout.after statement := by
  cases statement <;> rfl

theorem emit_bare (settings : Settings) (layout : Layout) (statements : List Statement) :
    (emit settings layout (statements.map Statement.bare)).lines =
        (emit settings layout statements).lines ∧
      (emit settings layout (statements.map Statement.bare)).failure =
        (emit settings layout statements).failure.map Failure.withoutSpan := by
  induction statements generalizing layout with
  | nil => exact ⟨rfl, rfl⟩
  | cons statement rest ih =>
      obtain ⟨hlines, hfailure⟩ := ih (layout.after statement)
      cases statement with
      | line content =>
          -- the layout asks for the words of actions only
          have hafter : layout.after (.line content.bare) = layout.after (.line content) :=
            layout.after_bare (.line content)
          have haction : content.bare.action = content.action := rfl
          simp only [List.map_cons, Statement.bare, emit, haction]
          cases content.action.code settings with
          | error cause => exact ⟨rfl, rfl⟩
          | ok text =>
              rw [hafter]
              exact ⟨congrArg (_ :: ·) hlines, hfailure⟩
      | block name state => exact ⟨hlines, hfailure⟩
      | blockEnd state pictograph => exact ⟨hlines, hfailure⟩
      | arrow edge => exact ⟨hlines, hfailure⟩

theorem preludeOf_bare (settings : Settings) (statements : List Statement) :
    preludeOf settings (statements.map Statement.bare) = preludeOf settings statements := by
  have hindexSet (statement : Statement) :
      statement.bare.isIndexSet = statement.isIndexSet := by
    cases statement with
    | line content =>
        obtain ⟨action, state, pictograph, line, span⟩ := content
        cases action <;> rfl
    | _ => rfl
  unfold preludeOf
  rw [List.any_map]
  simp only [Function.comp_def, hindexSet]

theorem codeOf_bare (settings : Settings) (statements : List Statement) :
    codeOf settings (statements.map Statement.bare) =
      (codeOf settings statements).mapError Failure.withoutSpan := by
  obtain ⟨hlines, hfailure⟩ := emit_bare settings {} statements
  unfold codeOf
  rw [hlines, hfailure, preludeOf_bare]
  cases (emit settings {} statements).failure <;> rfl

/-! ## Compiling -/

/-- Compiles the findings of a source. -/
def compileFindings (settings : Settings) (found : List Finding) : Except Failure Compiled := do
  let lines ← readLines .empty (tokensOf found)
  let code ← codeOf settings (lines.map Prod.snd)
  return ⟨code, diagnosticsOf found ++ blockDiagnostics lines⟩

theorem compile_eq_compileFindings (settings : Settings) (source : String) :
    compile settings source = compileFindings settings (findings source) := by
  simp only [compile, parse, readProgram, compileFindings]
  cases readLines .empty (tokensOf (findings source)) with
  | error cause => rfl
  | ok lines =>
      change ((programOf lines).generate settings).code >>= _ = _
      rw [code_generate, statements_programOf]
      rfl

theorem compileFindings_bare (settings : Settings) (found : List Finding) :
    compileFindings settings (found.map Finding.bare) =
      ((compileFindings settings found).map Compiled.withoutSpans).mapError
        Failure.withoutSpan := by
  unfold compileFindings
  rw [tokensOf_bare, diagnosticsOf_bare, readLines_bare]
  cases readLines .empty (tokensOf found) with
  | error cause => rfl
  | ok lines =>
      have hstatements : (lines.map bareLine).map Prod.snd =
          (lines.map Prod.snd).map Statement.bare := by
        simp [bareLine]
      have hcode := codeOf_bare settings (lines.map Prod.snd)
      -- both sides with the remarks behind the code
      change (codeOf settings ((lines.map bareLine).map Prod.snd) >>= fun code =>
          Except.ok (Compiled.mk code ((diagnosticsOf found).map Diagnostic.withoutSpan ++
            blockDiagnostics (lines.map bareLine)))) =
        ((codeOf settings (lines.map Prod.snd) >>= fun code =>
          Except.ok (Compiled.mk code (diagnosticsOf found ++ blockDiagnostics lines))).map
            Compiled.withoutSpans).mapError Failure.withoutSpan
      rw [hstatements, hcode, blockDiagnostics_bare, ← List.map_append]
      cases codeOf settings (lines.map Prod.snd) <;> rfl

end LineScript
