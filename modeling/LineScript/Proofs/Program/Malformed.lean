import LineScript.Proofs.Program.FirstFailure
import LineScript.Proofs.Statement.Forms
import LineScript.Proofs.Statement.Texts

/-!
# Lines that there is no code for

Reading takes the names of a global declaration and the words of an arithmetic line as they come,
and does not count them.  Only where code is made it turns out that names are missing, or that there
are not three words.  These are the only faults that are found so late (`Action.Malformed`): there
is code for every other action, whatever its expressions and whatever the settings.

Main statement: a source fails in generation exactly if it is parsed and has a malformed line, and
then by the first of them; every other source that is parsed has code
(`compile_eq_generation_iff`).

## Strategy

* **One action.**  `Action.code_eq_error_iff` goes through the forms of actions.  Settings do not
  occur in `Action.Malformed`, and so have no influence on the failure.
* **One program.**  The failure of a program is that of the first of its lines that has one, in the
  order of its statements (`code_generate_eq_error_iff`).
* **One source.**  The main statement speaks of the first line of the source, by numbers.  The lines
  of a program stand in the order of the source, however they are cut into segments
  (`pairwise_line_of_parse`), so that the two are the same (`firstMalformed_iff`).

Failures of reading are of other kinds (`isOfReading_of_parse`), and the outcomes of a source that
is parsed are those of its program (`compile_of_parse`).
-/

namespace LineScript

/-! ## Malformed actions -/

/-- There is no code for an action, and why: a global declaration has no names, or the words of an
arithmetic line are not three. -/
inductive Action.Malformed : Action → CodeError → Prop
  | global : Malformed (.global []) .globalWithoutNames
  | arith {op : ArithOp} {args : List String} (hlength : args.length ≠ 3) :
      Malformed (.arith op args) (.arithArity op args.length)

/-- There is code for an action exactly if it is not malformed, whatever the settings. -/
theorem Action.code_eq_error_iff (settings : Settings) {action : Action} {cause : CodeError} :
    action.code settings = .error cause ↔ action.Malformed cause := by
  constructor
  · intro hcode
    cases action with
    | global names =>
        cases names with
        | nil =>
            cases hcode
            exact .global
        | cons name others => cases hcode
    | arith op args =>
        -- no words, one, two, three, or more: three have code
        rcases args with - | ⟨result, - | ⟨left, - | ⟨right, - | ⟨fourth, others⟩⟩⟩⟩
        case cons.cons.cons.nil => cases hcode
        all_goals
          cases hcode
          exact .arith (by simp)
    | indexSet container index value =>
        rw [Action.code] at hcode
        split at hcode <;> cases hcode
    -- with and without a value there is code
    | print value? | returnValue value? => cases value? <;> cases hcode
    | exceptBlock exception? => cases exception? <;> cases hcode
    | _ => cases hcode
  · intro hmalformed
    cases hmalformed with
    | global => rfl
    | @arith op args hlength =>
        rcases args with - | ⟨result, - | ⟨left, - | ⟨right, - | ⟨fourth, others⟩⟩⟩⟩
        case cons.cons.cons.nil => exact absurd rfl hlength
        all_goals rfl

/-- A line fails exactly if its action is malformed, and the failure is on that line. -/
theorem Line.failure?_eq_some_iff {settings : Settings} {content : Line} {failure : Failure} :
    content.failure? settings = some failure ↔
      ∃ cause, content.action.Malformed cause ∧
        failure = .generation cause.message content.span := by
  simp only [← Action.code_eq_error_iff settings, Line.failure?]
  cases content.action.code settings <;> simp [eq_comm]

theorem Line.failure?_eq_none_iff {settings : Settings} {content : Line} :
    content.failure? settings = none ↔ ∀ cause, ¬ content.action.Malformed cause := by
  simp only [← Action.code_eq_error_iff settings, Line.failure?]
  cases content.action.code settings <;> simp

/-! ## The order of lines -/

/-- A line with an action keeps the number of its token. -/
theorem line_of_readStatement {known : KnownNames} {token : LineToken} {content : Line}
    (hread : readStatement known token = .ok (.line content)) : content.line = token.line := by
  cases readStatement_eq_ok_iff.mp hread <;> rfl

/-- The lines of a parsed program stand in the order of the source. -/
theorem pairwise_line_of_parse {source : String} {parsed : Parsed}
    (hparse : parse source = .ok parsed) :
    parsed.program.lines.Pairwise fun content later => content.line < later.line := by
  obtain ⟨lines, hread, rfl⟩ := parse_eq_ok_iff.mp hparse
  obtain ⟨htokens, -⟩ := readLines_eq_ok_iff.mp hread
  have hsource : (lines.map Prod.fst).Pairwise fun token later => token.line < later.line := by
    rw [htokens, EachLine.tokensOf_findings]
    apply (EachLine.pairwise_collect_token? _).imp
    exact fun hbehind => hbehind.1
  -- a statement keeps the number of its line
  have hnumber : ∀ line ∈ lines, ∀ content, line.2.line? = some content →
      content.line = line.1.line := by
    rintro ⟨token, statement⟩ hline content hcontent
    obtain ⟨-, known, hstatement⟩ := mem_of_readLines hread hline
    cases statement with
    | line other =>
        cases hcontent
        exact line_of_readStatement hstatement
    | _ => cases hcontent
  rw [Program.lines, statements_programOf, List.filterMap_map, List.pairwise_filterMap]
  rw [List.pairwise_map] at hsource
  apply hsource.imp_of_mem
  intro line later hline hlater hlt content hcontent other hother
  rw [hnumber line hline content hcontent, hnumber later hlater other hother]
  exact hlt

/-- The first malformed line of a program, in the order of the source, and what is wrong with it. -/
structure Program.FirstMalformed (program : Program) (content : Line) (cause : CodeError) :
    Prop where
  mem : content ∈ program.lines
  malformed : content.action.Malformed cause
  first : ∀ other ∈ program.lines, ∀ cause, other.action.Malformed cause →
    other = content ∨ content.line < other.line

/-- Where lines stand in order, the first malformed one is the one that none is in front of. -/
theorem firstMalformed_iff {program : Program}
    (horder : program.lines.Pairwise fun content later => content.line < later.line)
    {content : Line} {cause : CodeError} :
    program.FirstMalformed content cause ↔
      ∃ front back, program.lines = front ++ content :: back ∧ content.action.Malformed cause ∧
        ∀ other ∈ front, ∀ cause, ¬ other.action.Malformed cause := by
  constructor
  · rintro ⟨hmem, hmalformed, hfirst⟩
    obtain ⟨front, back, hlines⟩ := List.append_of_mem hmem
    refine ⟨front, back, hlines, hmalformed, ?_⟩
    intro other hother cause' hmalformed'
    rw [hlines, List.pairwise_append] at horder
    have hlt : other.line < content.line := horder.2.2 other hother content List.mem_cons_self
    -- a line in front has a smaller number than the first malformed one
    rcases hfirst other (by simp [hlines, hother]) cause' hmalformed' with rfl | hbehind
    · exact Nat.lt_irrefl _ hlt
    · omega
  · rintro ⟨front, back, hlines, hmalformed, hfront⟩
    refine ⟨by simp [hlines], hmalformed, ?_⟩
    intro other hother cause' hmalformed'
    rw [hlines] at hother
    -- in front of the line nothing is malformed, and the rest has greater numbers
    rcases List.mem_append.mp hother with hin | hin
    · exact absurd hmalformed' (hfront other hin cause')
    · rcases List.mem_cons.mp hin with rfl | hback
      · exact .inl rfl
      · rw [hlines, List.pairwise_append, List.pairwise_cons] at horder
        exact .inr (horder.2.1.1 other hback)

/-! ## Failures of generation -/

variable {settings : Settings} {source : String}

/-- A program fails in generation exactly by the first of its lines that fails. -/
theorem code_generate_eq_error_iff {program : Program} {failure : Failure} :
    (program.generate settings).code = .error failure ↔
      program.lines.findSome? (·.failure? settings) = some failure := by
  rw [code_generate, codeOf_eq_error_iff, Program.lines]

/-- There is code for a program exactly if none of its lines is malformed. -/
theorem exists_code_generate_iff {program : Program} :
    (∃ code, (program.generate settings).code = .ok code) ↔
      ∀ content ∈ program.lines, ∀ cause, ¬ content.action.Malformed cause := by
  have hnone : program.lines.findSome? (·.failure? settings) = none ↔
      ∀ content ∈ program.lines, ∀ cause, ¬ content.action.Malformed cause := by
    simp only [List.findSome?_eq_none_iff, Line.failure?_eq_none_iff]
  rw [← hnone, code_generate, codeOf, failure_emit, Program.lines]
  cases (program.statements.filterMap Statement.line?).findSome? (·.failure? settings) <;> simp

/-- A parsed program fails in generation exactly by its first malformed line. -/
theorem code_generate_eq_error_iff_of_parse {parsed : Parsed} (hparse : parse source = .ok parsed)
    {failure : Failure} :
    (parsed.program.generate settings).code = .error failure ↔
      ∃ content cause, parsed.program.FirstMalformed content cause ∧
        failure = .generation cause.message content.span := by
  rw [code_generate_eq_error_iff, List.findSome?_eq_some_iff]
  simp only [Line.failure?_eq_some_iff, Line.failure?_eq_none_iff,
    firstMalformed_iff (pairwise_line_of_parse hparse)]
  constructor
  · rintro ⟨front, content, back, hlines, ⟨cause, hmalformed, rfl⟩, hfront⟩
    exact ⟨content, cause, ⟨front, back, hlines, hmalformed, hfront⟩, rfl⟩
  · rintro ⟨content, cause, ⟨front, back, hlines, hmalformed, hfront⟩, rfl⟩
    exact ⟨front, content, back, hlines, ⟨cause, hmalformed, rfl⟩, hfront⟩

/-- A source that is not parsed fails in reading, and not in generation. -/
theorem isOfReading_of_parse {failure : Failure} (hparse : parse source = .error failure) :
    failure.IsOfReading := by
  rw [parse, readProgram, bind_eq_error_iff] at hparse
  rcases hparse with hread | ⟨lines, -, hreturn⟩
  · obtain ⟨-, token, -, -, error, -, -, -, rfl⟩ := readLines_eq_error_iff.mp hread
    cases error with
    | expression cause => cases cause <;> trivial
    | _ => trivial
  · cases hreturn

/-- What comes of a source that is parsed is what comes of its program. -/
theorem compile_of_parse {parsed : Parsed} (settings : Settings)
    (hparse : parse source = .ok parsed) :
    compile settings source =
      (parsed.program.generate settings).code.map fun code => ⟨code, parsed.diagnostics⟩ := by
  rw [compile, hparse]
  cases hcode : (parsed.program.generate settings).code <;>
    simp [bind, Except.bind, pure, Except.pure, Except.map, hcode]

/-- A source that is parsed fails in generation exactly by its first malformed line. -/
theorem compile_eq_generation_iff_of_parse {parsed : Parsed} (hparse : parse source = .ok parsed)
    (message : String) (span : Option Span) :
    compile settings source = .error (.generation message span) ↔
      ∃ content cause, parsed.program.FirstMalformed content cause ∧
        message = cause.message ∧ span = some content.span := by
  have hgenerate : compile settings source = .error (.generation message span) ↔
      (parsed.program.generate settings).code = .error (.generation message span) := by
    rw [compile_of_parse settings hparse]
    cases (parsed.program.generate settings).code <;> simp [Except.map]
  rw [hgenerate, code_generate_eq_error_iff_of_parse hparse]
  simp only [Failure.generation.injEq]

/-- **Generation fails by malformed lines only.**  A source fails in generation exactly if it is
parsed and has a malformed line.  The failure has the message and the span of the first malformed
line, whatever the settings and the other lines.  Every other source that is parsed has code. -/
theorem compile_eq_generation_iff (settings : Settings) (source : String) :
    ((∃ message span, compile settings source = .error (.generation message span)) ↔
      ∃ parsed, parse source = .ok parsed ∧
        ∃ content ∈ parsed.program.lines, ∃ cause, content.action.Malformed cause) ∧
    (∀ message span, compile settings source = .error (.generation message span) ↔
      ∃ parsed content cause, parse source = .ok parsed ∧
        parsed.program.FirstMalformed content cause ∧
        message = cause.message ∧ span = some content.span) ∧
    ((∃ compiled, compile settings source = .ok compiled) ↔
      ∃ parsed, parse source = .ok parsed ∧
        ∀ content ∈ parsed.program.lines, ∀ cause, ¬ content.action.Malformed cause) := by
  cases hparse : parse source with
  | error failure =>
      -- a source that is not parsed fails before there is any code to make
      have hreading := isOfReading_of_parse hparse
      have hcompile : compile settings source = .error failure := by
        rw [compile, hparse]
        rfl
      have hgeneration (message : String) (span : Option Span) :
          failure ≠ .generation message span := by
        rintro rfl
        exact hreading
      simp [hcompile, hgeneration]
  | ok parsed =>
      simp only [Except.ok.injEq, exists_eq_left', exists_and_left]
      refine ⟨⟨?fails, ?malformed⟩, compile_eq_generation_iff_of_parse hparse, ?succeeds⟩
      case fails =>
        rintro ⟨message, span, hcompile⟩
        obtain ⟨content, cause, hfirst, -⟩ :=
          (compile_eq_generation_iff_of_parse hparse message span).mp hcompile
        exact ⟨content, hfirst.mem, cause, hfirst.malformed⟩
      case malformed =>
        rintro ⟨content, hmem, cause, hmalformed⟩
        cases hcode : (parsed.program.generate settings).code with
        | ok code =>
            -- with code there would be no malformed line
            have hnone := exists_code_generate_iff.mp ⟨code, hcode⟩
            exact absurd hmalformed (hnone content hmem cause)
        | error failure =>
            -- some line is malformed, and it is the first one that is reported
            obtain ⟨first, cause', hfirst, rfl⟩ :=
              (code_generate_eq_error_iff_of_parse hparse).mp hcode
            refine ⟨cause'.message, some first.span, ?_⟩
            rw [compile_eq_generation_iff_of_parse hparse]
            exact ⟨first, cause', hfirst, rfl, rfl⟩
      case succeeds =>
        rw [compile_of_parse settings hparse, ← exists_code_generate_iff]
        cases (parsed.program.generate settings).code <;> simp [Except.map]

/-- Of two malformed lines the first one fails, behind the end of a segment and in a block. -/
example : compile .default "> global x\npart:\nadd r 1\nend\nglobal" =
    .error (.generation "ADD expects 3 arguments: result left right, got 2" (some ⟨17, 24⟩)) := by
  with_unfolding_all rfl

end LineScript
