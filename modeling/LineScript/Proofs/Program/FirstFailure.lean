import LineScript.Proofs.Code.Indentation
import LineScript.Proofs.Program.Annotations
import LineScript.Proofs.Program.KnownNames
import LineScript.Proofs.Source.EachLine

/-!
# The first line that fails

Lines are read up to the first that is no statement, and the failure is on that line.  What stands
behind it has no effect: the scanner makes of the lines before it what it makes of them alone, and
the reader does not go on.  Main statements: lines fail exactly if there is a first one that is no
statement (`readLines_eq_error_iff`), and a source with such a line fails on it, whatever stands
behind the source (`compile_eq_error_of_isOfReading`).

## Strategy

A failure of reading is known by its constructor, and no later stage makes one
(`compile_eq_error_iff`), so that settings are out of the question at once.

The token of the failing line is found among the tokens, and has to be found in the source again:
each token comes from a piece, and its span covers the text of that piece
(`exists_line_of_tokensOf_eq`).  The part of the source in front is complete, that is, ends with a
line feed or is empty, which makes its own tokens those before the failing one.  Behind the source
anything may follow after a line feed.  It may close a block comment or open one, but the tokens of
the source itself are made by then (`exists_tokensOf_append`).
-/

namespace LineScript

open Text

/-! ## Lines -/

/-- The first line is no statement, or the lines behind it fail. -/
theorem readLines_cons_eq_error_iff {known : KnownNames} {token : LineToken} {rest : List LineToken}
    {cause : Failure} :
    readLines known (token :: rest) = .error cause ↔
      (∃ error, readStatement known token = .error error ∧ cause = error.at token.span) ∨
        ∃ statement, readStatement known token = .ok statement ∧
          readLines (known.declareAll statement.declares) rest = .error cause := by
  rw [readLines]
  cases readStatement known token with
  | error error => simp [eq_comm]
  | ok statement =>
      rw [bind_eq_error_iff]
      simp [pure, Except.pure]

/-- Lines fail with the first of them that is no statement, and what stands behind it is not
read. -/
theorem readLines_eq_error_iff {known : KnownNames} {tokens : List LineToken} {cause : Failure} :
    readLines known tokens = .error cause ↔
      ∃ front token back lines error, tokens = front ++ token :: back ∧
        readLines known front = .ok lines ∧
        readStatement (known.declareAll ((lines.map Prod.snd).flatMap Statement.declares)) token =
          .error error ∧
        cause = error.at token.span := by
  induction tokens generalizing known with
  | nil => simp [readLines]
  | cons first rest ih =>
      rw [readLines_cons_eq_error_iff]
      constructor
      · rintro (⟨error, herror, rfl⟩ | ⟨statement, hstatement, hrest⟩)
        · -- the first line fails, and nothing is read before it
          exact ⟨[], first, rest, [], error, rfl, rfl, herror, rfl⟩
        · obtain ⟨front, token, back, lines, error, rfl, hfront, herror, rfl⟩ := ih.mp hrest
          -- the names of the first line are known on the failing one
          refine ⟨first :: front, token, back, (first, statement) :: lines, error, rfl,
            readLines_cons_eq_ok_iff.mpr ⟨_, _, hstatement, hfront, rfl⟩, ?_, rfl⟩
          rw [List.map_cons, List.flatMap_cons, KnownNames.declareAll_append]
          exact herror
      · rintro ⟨front, token, back, lines, error, htokens, hfront, herror, rfl⟩
        cases front with
        | nil =>
            obtain ⟨rfl, -⟩ := List.cons.inj htokens
            cases hfront
            exact .inl ⟨error, herror, rfl⟩
        | cons other front =>
            obtain ⟨rfl, rfl⟩ := List.cons.inj htokens
            obtain ⟨statement, more, hstatement, hmore, rfl⟩ := readLines_cons_eq_ok_iff.mp hfront
            rw [List.map_cons, List.flatMap_cons, KnownNames.declareAll_append] at herror
            exact .inr ⟨statement, hstatement,
              ih.mpr ⟨front, token, back, more, error, rfl, hmore, herror, rfl⟩⟩

/-- The failure is on the line of a token. -/
theorem LineError.span?_at (error : LineError) (span : Span) :
    (error.at span).span? = some span := by
  cases error with
  | expression cause => cases cause <;> rfl
  | _ => rfl

/-- Lines that fail do so whatever stands behind them. -/
theorem readLines_append_eq_error {known : KnownNames} {tokens : List LineToken} {cause : Failure}
    (hread : readLines known tokens = .error cause) (more : List LineToken) :
    readLines known (tokens ++ more) = .error cause := by
  obtain ⟨front, token, back, lines, error, rfl, hfront, herror, rfl⟩ :=
    readLines_eq_error_iff.mp hread
  exact readLines_eq_error_iff.mpr
    ⟨front, token, back ++ more, lines, error, by simp, hfront, herror, rfl⟩

/-! ## Sources -/

/-- The failure comes of reading a line, and not of generating code. -/
def Failure.IsOfReading : Failure → Prop
  | .parse .. | .grouping .. => True
  | .generation .. | .settings | .file => False

theorem not_isOfReading_of_codeOf {settings : Settings} {statements : List Statement}
    {cause : Failure} (hcode : codeOf settings statements = .error cause) :
    ¬ cause.IsOfReading := by
  obtain ⟨content, -, hcontent⟩ :=
    List.exists_of_findSome?_eq_some (codeOf_eq_error_iff.mp hcode)
  unfold Line.failure? at hcontent
  split at hcontent
  · cases hcontent
    exact id
  · cases hcontent

/-- A source fails in reading exactly if its lines do. -/
theorem compile_eq_error_iff {settings : Settings} {source : String} {cause : Failure}
    (hreading : cause.IsOfReading) :
    compile settings source = .error cause ↔
      readLines .empty (tokensOf (findings source)) = .error cause := by
  rw [compile_eq_compileFindings, compileFindings, bind_eq_error_iff]
  refine or_iff_left ?_
  rintro ⟨lines, -, hcode⟩
  rcases bind_eq_error_iff.mp hcode with hcode | ⟨code, -, hreturn⟩
  · exact not_isOfReading_of_codeOf hcode hreading
  · cases hreturn

/-- More text behind a source adds tokens behind those of the source. -/
theorem exists_tokensOf_append (source rest : String) :
    ∃ more, tokensOf (findings (source ++ "\n" ++ rest)) = tokensOf (findings source) ++ more := by
  obtain ⟨more, hpieces⟩ := Source.exists_pieces_append_lineFeed source.toList rest.toList
  have htext : (source ++ "\n" ++ rest).toList = source.toList ++ '\n' :: rest.toList := by
    simp [String.toList_append]
  rw [EachLine.tokensOf_findings, EachLine.tokensOf_findings, htext, hpieces,
    EachLine.collect_append]
  exact ⟨_, rfl⟩

/-- A token is that of a line, and the tokens before it are those of the text before the line. -/
theorem exists_line_of_tokensOf_eq {source : String} {front back : List LineToken}
    {token : LineToken} (htokens : tokensOf (findings source) = front ++ token :: back) :
    ∃ before line after, source.toList = before ++ line ++ after ∧ '\n' ∉ line ∧
      token.span = ⟨byteLength before, byteLength (before ++ line)⟩ ∧ Source.IsComplete before ∧
      tokensOf (findings (String.ofList before)) = front := by
  rw [EachLine.tokensOf_findings] at htokens
  obtain ⟨before, piece, after, hpieces, hfront, htoken⟩ :=
    EachLine.exists_piece_of_collect_eq htokens
  have hfeed : ∀ line ∈ before ++ piece :: after, '\n' ∉ line := fun line hline =>
    Source.not_mem_of_mem_pieces (hpieces ▸ hline)
  obtain ⟨behind, hsource⟩ := EachLine.exists_eq_lineText_append hpieces
  obtain ⟨-, hspan⟩ := EachLine.line_of_token? htoken
  refine ⟨_, _, behind, hsource, Source.not_mem_dropReturn (hfeed piece (by simp)), ?_,
    Source.isComplete_linesText before, ?_⟩
  · rw [hspan, EachLine.span_eq]
  · -- the source up to the line has the same lines before it, hence the same tokens
    have hbefore : ∀ line ∈ before, '\n' ∉ line := fun line hline =>
      hfeed line (List.mem_append_left _ hline)
    rw [EachLine.tokensOf_findings, String.toList_ofList, Source.pieces_linesText hbefore, hfront]

/-- **The first line that fails decides the failure.**  A source whose lines cannot all be read
fails on one of its tokens: the failure has the span of the token, which is where the text of its
line stands in the source, and what stands before that line is parsed.  The same failure comes of
the source with any lines behind it. -/
theorem compile_eq_error_of_isOfReading {settings : Settings} {source : String} {cause : Failure}
    (hcompile : compile settings source = .error cause) (hreading : cause.IsOfReading) :
    (∃ token ∈ tokensOf (findings source), cause.span? = some token.span ∧
      ∃ before line after, source.toList = before ++ line ++ after ∧ '\n' ∉ line ∧
        token.span = ⟨byteLength before, byteLength (before ++ line)⟩ ∧
        Source.IsComplete before ∧ ∃ parsed, parse (String.ofList before) = .ok parsed) ∧
      ∀ (settings' : Settings) (rest : String),
        compile settings' (source ++ "\n" ++ rest) = .error cause := by
  have hread := (compile_eq_error_iff hreading).mp hcompile
  constructor
  · obtain ⟨front, token, back, lines, error, htokens, hfront, -, rfl⟩ :=
      readLines_eq_error_iff.mp hread
    obtain ⟨before, line, after, hsource, hfeed, hspan, hcomplete, hbefore⟩ :=
      exists_line_of_tokensOf_eq htokens
    refine ⟨token, by simp [htokens], error.span?_at token.span, before, line, after, hsource,
      hfeed, hspan, hcomplete, _, parse_eq_ok_iff.mpr ⟨lines, ?_, rfl⟩⟩
    rw [hbefore, hfront]
  · intro settings' rest
    -- whatever is appended, the tokens of the source stay in front
    obtain ⟨more, hmore⟩ := exists_tokensOf_append source rest
    rw [compile_eq_error_iff hreading, hmore]
    exact readLines_append_eq_error hread more

/-- The last line of a source has a misplaced group, behind a return and a block comment. -/
theorem compile_eq_error_of_isOfReading_grouping :
    compile .default "set x 1\r\n~~\nif\n~~\nset y 2 + ( x )\r" = .error (.grouping ⟨18, 33⟩) ∧
      (Failure.grouping ⟨18, 33⟩).IsOfReading ∧
      ∀ (settings : Settings) (rest : String),
        compile settings ("set x 1\r\n~~\nif\n~~\nset y 2 + ( x )\r" ++ "\n" ++ rest) =
          .error (.grouping ⟨18, 33⟩) := by
  have hcompile : compile .default "set x 1\r\n~~\nif\n~~\nset y 2 + ( x )\r" =
      .error (.grouping ⟨18, 33⟩) := by
    with_unfolding_all rfl
  have hreading : (Failure.grouping ⟨18, 33⟩).IsOfReading := trivial
  exact ⟨hcompile, hreading, (compile_eq_error_of_isOfReading hcompile hreading).2⟩

end LineScript
