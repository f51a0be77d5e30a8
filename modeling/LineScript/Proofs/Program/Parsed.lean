import LineScript.Compile

/-!
# Parsed programs

What a successful parse says about its lines.  Segments and remarks are read off the list of
tokens and statements, so that most facts about programs are facts about that list:
`parse_eq_ok_iff` gives the list behind a program, and `statements_programOf` says that cutting
it into segments loses nothing.
-/

namespace LineScript

/-! ## Outcomes in sequence -/

theorem bind_eq_ok_iff {ε α β : Type} {first : Except ε α} {next : α → Except ε β} {value : β} :
    first >>= next = .ok value ↔ ∃ between, first = .ok between ∧ next between = .ok value := by
  cases first <;> simp [bind, Except.bind]

theorem bind_eq_error_iff {ε α β : Type} {first : Except ε α} {next : α → Except ε β} {cause : ε} :
    first >>= next = .error cause ↔
      first = .error cause ∨ ∃ between, first = .ok between ∧ next between = .error cause := by
  cases first <;> simp [bind, Except.bind]

theorem map_eq_ok_iff {ε α β : Type} {f : α → β} {result : Except ε α} {value : β} :
    result.map f = .ok value ↔ ∃ first, result = .ok first ∧ f first = value := by
  cases result <;> simp [Except.map]

theorem map_eq_error_iff {ε α β : Type} {f : α → β} {result : Except ε α} {cause : ε} :
    result.map f = .error cause ↔ result = .error cause := by
  cases result <;> simp [Except.map]

/-! ## Parsed programs -/

/-- Cutting lines into segments keeps their statements and the order of them. -/
theorem flatMap_segmentsOf (lines : List (LineToken × Statement)) :
    (segmentsOf lines).flatMap Segment.statements = lines.map Prod.snd := by
  induction lines with
  | nil => rfl
  | cons line rest ih =>
      obtain ⟨token, statement⟩ := line
      rw [List.map_cons, ← ih]
      rw [segmentsOf]
      -- a line ends its segment, or goes in front of the one behind it
      split
      · rfl
      · cases segmentsOf rest <;> rfl

theorem statements_programOf (lines : List (LineToken × Statement)) :
    (programOf lines).statements = lines.map Prod.snd := by
  rw [← flatMap_segmentsOf]
  unfold programOf
  split
  next hnil => rw [hnil]; rfl
  next => simp [Program.statements]

theorem readProgram_eq_ok_iff {tokens : List LineToken} {diagnostics : List Diagnostic}
    {parsed : Parsed} :
    readProgram tokens diagnostics = .ok parsed ↔
      ∃ lines, readLines .empty tokens = .ok lines ∧
        parsed = ⟨programOf lines, diagnostics ++ blockDiagnostics lines⟩ := by
  rw [readProgram, bind_eq_ok_iff]
  simp [pure, Except.pure, eq_comm]

/-- A source whose parse shows a fact has a program with that fact. -/
theorem exists_parsed {α : Type} {source : String} {fact : Parsed → α} {value : α}
    (hfact : (parse source).toOption.map fact = some value) :
    ∃ parsed, parse source = .ok parsed ∧ fact parsed = value := by
  cases hparse : parse source with
  | error cause =>
      rw [hparse] at hfact
      cases hfact
  | ok parsed =>
      rw [hparse] at hfact
      exact ⟨parsed, rfl, Option.some.inj hfact⟩

/-- A parsed program is the program of its lines, and its remarks are those of the scanner and
then those on blocks. -/
theorem parse_eq_ok_iff {source : String} {parsed : Parsed} :
    parse source = .ok parsed ↔
      ∃ lines, readLines .empty (tokensOf (findings source)) = .ok lines ∧
        parsed = ⟨programOf lines, diagnosticsOf (findings source) ++ blockDiagnostics lines⟩ :=
  readProgram_eq_ok_iff

theorem compile_eq_ok_iff {settings : Settings} {source : String} {compiled : Compiled} :
    compile settings source = .ok compiled ↔
      ∃ parsed code, parse source = .ok parsed ∧
        (parsed.program.generate settings).code = .ok code ∧
        compiled = ⟨code, parsed.diagnostics⟩ := by
  unfold compile
  rw [bind_eq_ok_iff]
  refine exists_congr fun parsed => ?_
  rw [bind_eq_ok_iff, exists_and_left]
  refine and_congr_right fun _ => exists_congr fun code => and_congr_right fun _ => ?_
  exact ⟨fun h => (Except.ok.inj h).symm, fun h => h ▸ rfl⟩

end LineScript
