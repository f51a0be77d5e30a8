import LineScript.Proofs.Program.KnownNames
import LineScript.Proofs.Statement.Forms

/-!
# Where segments end

The segments of a program are stretches of its statements.  Here each statement is put together
with the number of the segment that it lies in (`Program.numbered`), so that it can be said of two
statements that are next to each other whether a segment ends between them.

Main statement: a program has one flow if it has statements and none otherwise, no segment is empty,
and a segment ends exactly behind arrows and lines that advance, but not behind headers of one word
(`segments_of_readProgram`).

## Strategy

Segments are put together from the last line to the first: a line goes into the first segment behind
it, or opens one of its own.  Numbers are counted from the front, and so the induction is for any
first number: behind a line that closes its segment they go on with the next number, and behind any
other line with the same one (`numberedFrom_segmentsOf_cons`).  With this
`number_ne_iff_closesSegment` says it for two lines next to each other, wherever they stand.

Whether a line closes its segment is decided by its form (`closesSegment_iff`).  Of the five forms
of lines, terminators and named blocks never do, arrows and actions do if their line advances, and
headers of one word are read before the state of their line is looked at.
-/

namespace LineScript

/-! ## Numbers of segments -/

/-- The statements of segments, each with the number of its segment. -/
def numberedFrom (first : Nat) (segments : List Segment) : List (Statement × Nat) :=
  (segments.zipIdx first).flatMap fun (segment, number) =>
    segment.statements.map fun statement => (statement, number)

/-- The statements of a program in source order, each with the number of its segment. -/
def Program.numbered (program : Program) : List (Statement × Nat) :=
  numberedFrom 0 (program.flows.flatMap Flow.segments)

@[simp] theorem numberedFrom_nil (first : Nat) : numberedFrom first [] = [] := rfl

@[simp] theorem numberedFrom_cons (first : Nat) (segment : Segment) (rest : List Segment) :
    numberedFrom first (segment :: rest) =
      (segment.statements.map fun statement => (statement, first)) ++
        numberedFrom (first + 1) rest := by
  rw [numberedFrom, List.zipIdx_cons, List.flatMap_cons]
  rfl

theorem map_fst_numberedFrom (first : Nat) (segments : List Segment) :
    (numberedFrom first segments).map Prod.fst = segments.flatMap Segment.statements := by
  induction segments generalizing first with
  | nil => rfl
  | cons segment rest ih => simp [ih, Function.comp_def]

/-- The numbers belong to the statements of the program, in their order. -/
theorem Program.map_fst_numbered (program : Program) :
    program.numbered.map Prod.fst = program.statements := by
  rw [numbered, map_fst_numberedFrom, List.flatMap_assoc]
  rfl

/-! ## Segments of lines -/

variable {token : LineToken} {statement : Statement} {rest lines : List (LineToken × Statement)}

/-- The segment of the first line goes on behind it unless the line closes it. -/
theorem numberedFrom_segmentsOf_cons (first : Nat) :
    numberedFrom first (segmentsOf ((token, statement) :: rest)) =
      (statement, first) ::
        numberedFrom (if closesSegment token statement then first + 1 else first)
          (segmentsOf rest) := by
  rw [segmentsOf]
  cases closesSegment token statement with
  | true => simp
  | false => cases segmentsOf rest <;> simp

theorem segmentsOf_eq_nil_iff : segmentsOf lines = [] ↔ lines = [] := by
  cases lines with
  | nil => simp [segmentsOf]
  | cons line rest =>
      obtain ⟨token, statement⟩ := line
      rw [segmentsOf]
      split
      · simp
      · cases segmentsOf rest <;> simp

theorem statements_ne_nil_of_mem_segmentsOf {segment : Segment}
    (hmem : segment ∈ segmentsOf lines) :
    segment.statements ≠ [] := by
  induction lines generalizing segment with
  | nil => cases hmem
  | cons line rest ih =>
      obtain ⟨token, statement⟩ := line
      rw [segmentsOf] at hmem
      split at hmem
      next =>
        rcases List.mem_cons.mp hmem with rfl | hrest
        · exact List.cons_ne_nil _ _
        · exact ih hrest
      next =>
        -- the first line is put into the first of the segments behind it
        cases hsegments : segmentsOf rest with
        | nil =>
            rw [hsegments, List.mem_singleton] at hmem
            subst hmem
            exact List.cons_ne_nil _ _
        | cons behind others =>
            rw [hsegments] at hmem ih
            rcases List.mem_cons.mp hmem with rfl | hother
            · exact List.cons_ne_nil _ _
            · exact ih (List.mem_cons_of_mem _ hother)

/-- Between two lines the number changes exactly if the first of them closes its segment. -/
theorem number_ne_iff_closesSegment {first i number number' : Nat} {next : Statement}
    (hline : lines[i]? = some (token, statement))
    (hnumber : (numberedFrom first (segmentsOf lines))[i]? = some (statement, number))
    (hnext : (numberedFrom first (segmentsOf lines))[i + 1]? = some (next, number')) :
    number ≠ number' ↔ closesSegment token statement = true := by
  induction lines generalizing first i with
  | nil => cases hline
  | cons line rest ih =>
      obtain ⟨firstToken, firstStatement⟩ := line
      rw [numberedFrom_segmentsOf_cons] at hnumber hnext
      cases i with
      | succ i => exact ih hline hnumber hnext
      | zero =>
          obtain ⟨rfl, rfl⟩ : firstToken = token ∧ firstStatement = statement := by
            simpa using hline
          -- the first line has the first number
          obtain rfl : first = number := by simpa using hnumber
          cases rest with
          | nil => simp [segmentsOf] at hnext
          | cons line' rest' =>
              obtain ⟨token', statement'⟩ := line'
              rw [numberedFrom_segmentsOf_cons] at hnext
              simp only [List.getElem?_cons_succ, List.getElem?_cons_zero, Option.some.injEq,
                Prod.mk.injEq] at hnext
              obtain ⟨-, rfl⟩ := hnext
              -- behind a line that closes its segment the next number is taken
              by_cases hcloses : closesSegment firstToken firstStatement = true
              · simp [hcloses]
              · simp [hcloses]

/-- Lines are one flow, and no lines are none. -/
theorem flows_programOf (lines : List (LineToken × Statement)) :
    (programOf lines).flows = if lines.isEmpty then [] else [⟨segmentsOf lines⟩] := by
  unfold programOf
  cases lines with
  | nil => rfl
  | cons line rest =>
      have hne : segmentsOf (line :: rest) ≠ [] := fun hnil => by
        cases segmentsOf_eq_nil_iff.mp hnil
      split
      next hnil => exact absurd hnil hne
      next => rfl

theorem numbered_programOf (lines : List (LineToken × Statement)) :
    (programOf lines).numbered = numberedFrom 0 (segmentsOf lines) := by
  rw [Program.numbered, flows_programOf]
  split
  next hempty =>
    rw [segmentsOf_eq_nil_iff.mpr (List.isEmpty_iff.mp hempty)]
    rfl
  next => rw [List.flatMap_singleton]

/-! ## Lines that close segments -/

/-- An arrow or a line with an action, in the state that closes its segment. -/
inductive Statement.Advances : Statement → Prop where
  | line {content : Line} (hstate : content.state = .advance) : Advances (.line content)
  | arrow {edge : Arrow} (hstate : edge.state = .advance) : Advances (.arrow edge)

/-- A line of one word, which is `else`, `try` or `finally` in some spelling and a colon. -/
def LineToken.IsShortHeader (token : LineToken) : Prop :=
  token.args = [] ∧
    ∃ name, (ActionWord.ofHeader? name).isSome = true ∧ withoutColon? token.action = some name

theorem LineState.endsSegment_iff {state : LineState} :
    state.endsSegment = true ↔ state = .advance := by
  cases state <;> simp [endsSegment]

/-- The ends of an arrow are words behind the action, so that a line with an arrow is no header. -/
theorem args_ne_nil_of_readArrow? {edge : Arrow} (hedge : readArrow? token = .ok (some edge)) :
    token.args ≠ [] := by
  intro hnil
  simp [readArrow?, hnil] at hedge

theorem state_of_readArrow? {edge : Arrow} (hedge : readArrow? token = .ok (some edge)) :
    edge.state = token.state := by
  unfold readArrow? at hedge
  split at hedge
  · cases hedge
  · simp only at hedge
    split at hedge
    · cases hedge
    · split at hedge
      all_goals
        cases hedge
        rfl
  · cases hedge

@[simp] theorem Statement.advances_statement_iff {action : Action} :
    (token.statement action).Advances ↔ token.state = .advance := by
  constructor
  · intro hadvances
    cases hadvances with
    | line hstate => exact hstate
  · intro hstate
    exact Advances.line hstate

@[simp] theorem Statement.advances_arrow_iff {edge : Arrow} :
    (Statement.arrow edge).Advances ↔ edge.state = .advance := by
  constructor
  · intro hadvances
    cases hadvances with
    | arrow hstate => exact hstate
  · intro hstate
    exact Advances.arrow hstate

/-- What a line is read as says whether it closes its segment, but for the headers of one word. -/
theorem closesSegment_iff {known : KnownNames} (hread : readStatement known token = .ok statement) :
    closesSegment token statement = true ↔ statement.Advances ∧ ¬ token.IsShortHeader := by
  cases readStatement_eq_ok_iff.mp hread with
  | blockEnd hend =>
      have hnever : ¬ (Statement.blockEnd token.state token.pictograph).Advances := nofun
      simp [closesSegment, hnever]
  | arrow hend hedge =>
      -- an arrow has arguments
      have hlong : ¬ token.IsShortHeader := fun hshort => args_ne_nil_of_readArrow? hedge hshort.1
      simp [closesSegment, LineState.endsSegment_iff, state_of_readArrow? hedge, hlong]
  | branch hend hargs hname hword =>
      -- a branch that is its word alone: the one form whose state is not asked for
      have hshort : token.IsShortHeader := ⟨hargs, _, by simp [hword], hname⟩
      have hheader := LineToken.headerName?_eq_some_iff.mpr ⟨hargs, hname⟩
      simp [closesSegment, LineToken.statement, hheader, hshort]
  | @namedBlock name hend hargs hname hword hne =>
      have hnever : ¬ (Statement.block name token.state).Advances := nofun
      simp [closesSegment, hnever]
  | @action word action hend hedge hheader hword haction =>
      have hlong : ¬ token.IsShortHeader := by
        rintro ⟨hargs, name, -, hname⟩
        rw [LineToken.headerName?_eq_some_iff.mpr ⟨hargs, hname⟩] at hheader
        cases hheader
      have hnone : token.headerName?.isNone = true := by rw [hheader]; rfl
      rw [Statement.advances_statement_iff]
      simp [closesSegment, LineToken.statement, LineState.endsSegment_iff, hnone, hlong]

/-! ## Programs -/

/-- **Segments end where lines advance.**  A program has at most one flow, and none exactly if it
has no statements; no segment is empty.  Of two statements that are next to each other the second
one lies in another segment exactly if the first is an arrow or a line that advances, and is not
written as a header of one word. -/
theorem segments_of_readProgram {tokens : List LineToken} {diagnostics : List Diagnostic}
    {parsed : Parsed} (hread : readProgram tokens diagnostics = .ok parsed) :
    parsed.program.flows.length ≤ 1 ∧
      (parsed.program.flows = [] ↔ parsed.program.statements = []) ∧
      (∀ flow ∈ parsed.program.flows, ∀ segment ∈ flow.segments, segment.statements ≠ []) ∧
      parsed.program.numbered.map Prod.fst = parsed.program.statements ∧
      ∀ i token statement next number number', tokens[i]? = some token →
        parsed.program.numbered[i]? = some (statement, number) →
        parsed.program.numbered[i + 1]? = some (next, number') →
        (number ≠ number' ↔ statement.Advances ∧ ¬ token.IsShortHeader) := by
  obtain ⟨lines, hlines, rfl⟩ := readProgram_eq_ok_iff.mp hread
  obtain ⟨rfl, heach⟩ := readLines_eq_ok_iff.mp hlines
  rw [statements_programOf, flows_programOf]
  refine ⟨?flows, ?none, ?nonempty, ?statements, ?numbers⟩
  case flows => split <;> simp
  case none => cases lines <;> simp
  case nonempty =>
    intro flow hflow segment hsegment
    split at hflow
    · cases hflow
    · rw [List.mem_singleton] at hflow
      subst hflow
      exact statements_ne_nil_of_mem_segmentsOf hsegment
  case statements => rw [Program.map_fst_numbered, statements_programOf]
  case numbers =>
    intro i token statement next number number' htoken hnumber hnext
    have hstatement : (lines.map Prod.snd)[i]? = some statement := by
      rw [← statements_programOf, ← Program.map_fst_numbered, List.getElem?_map, hnumber]
      rfl
    -- token and statement of the line belong together
    have hline := getElem?_of_tokens_of_statements htoken hstatement
    rw [numbered_programOf] at hnumber hnext
    rw [number_ne_iff_closesSegment hline hnumber hnext]
    exact closesSegment_iff (heach i token statement hline)

/-- A `break` that advances ends a segment, and the end of a block does not. -/
theorem segments_of_break_and_end :
    ∃ parsed, readProgram [⟨"break", [], .advance, none, 1, {}⟩, ⟨"end", [], .advance, none, 2, {}⟩,
        ⟨"pass", [], .continued, none, 3, {}⟩] [] = .ok parsed ∧
      parsed.program.numbered =
        [(.line ⟨.breakLoop, .advance, none, 1, {}⟩, 0), (.blockEnd .advance none, 1),
          (.line ⟨.pass, .continued, none, 3, {}⟩, 1)] ∧
      parsed.program.flows.length ≤ 1 ∧
      ((0 : Nat) ≠ 1 ↔
        (Statement.line ⟨.breakLoop, .advance, none, 1, {}⟩).Advances ∧
          ¬ (LineToken.mk "break" [] .advance none 1 {}).IsShortHeader) ∧
      ((1 : Nat) ≠ 1 ↔
        (Statement.blockEnd .advance none).Advances ∧
          ¬ (LineToken.mk "end" [] .advance none 2 {}).IsShortHeader) := by
  obtain ⟨parsed, hread, hnumbered⟩ : ∃ parsed, readProgram [
        ⟨"break", [], .advance, none, 1, {}⟩, ⟨"end", [], .advance, none, 2, {}⟩,
        ⟨"pass", [], .continued, none, 3, {}⟩] [] = .ok parsed ∧
      parsed.program.numbered =
        [(.line ⟨.breakLoop, .advance, none, 1, {}⟩, 0), (.blockEnd .advance none, 1),
          (.line ⟨.pass, .continued, none, 3, {}⟩, 1)] := ⟨_, rfl, rfl⟩
  obtain ⟨hflows, -, -, -, hnumbers⟩ := segments_of_readProgram hread
  rw [hnumbered] at hnumbers
  exact ⟨parsed, hread, hnumbered, hflows, hnumbers 0 _ _ _ 0 1 rfl rfl rfl,
    hnumbers 1 _ _ _ 1 1 rfl rfl rfl⟩

/-- A header of one word ends no segment, although `else` without a colon does. -/
theorem numbered_of_short_header :
    (∃ parsed statement next, parse "> else:\npass" = .ok parsed ∧
      parsed.program.numbered = [(statement, 0), (next, 0)] ∧ statement.Advances) ∧
    ∃ parsed statement next, parse "> else\npass" = .ok parsed ∧
      parsed.program.numbered = [(statement, 0), (next, 1)] ∧ statement.Advances := by
  exact ⟨⟨_, _, _, rfl, rfl, .line rfl⟩, ⟨_, _, _, rfl, rfl, .line rfl⟩⟩

end LineScript
