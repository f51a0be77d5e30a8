import LineScript.Proofs.Blocks.ClosedBranches
import LineScript.Proofs.Program.Malformed
import LineScript.Proofs.Source.Places

/-!
# Where reports point to

Remarks and failures carry spans, which come from the scanner through tokens and statements.  Main
statement: where lines end at line feeds only, every report points to the line that it is about
(`reports_of_compile`).  A remark on a comment points to the mark of the comment, and all others,
and all failures, to the beginning of the line.

A failure is about the line that it comes from, which is said here without its span
(`Failure.CausedBy`): the first line that is no statement, or else the first one that there is no
code for.  There is only one such line (`Failure.CausedBy.unique`).

## Strategy

Places are a matter of the source alone: `Places.lean` says where a span that starts in a piece of
the source is shown.  What is left is to follow spans back to pieces.

* **Remarks of the scanner** are made on a piece, which is at hand.
* **Remarks on blocks** have the number and the span of a token
  (`exists_token_of_mem_blockDiagnostics`), and each token comes from a piece.
* **Failures** have the span of a token too, but which one is the point.  In the relation `CausedBy`
  no span occurs, so that it cannot hold just because the failure says so; from the span the
  relation is proved (`causedBy_of_compile`), and that no other token satisfies it comes from what
  reading does to the lines in front (`eq_of_first`).
-/

namespace LineScript

open Text

/-! ## Remarks -/

/-- A remark on a comment behind words. -/
def Diagnostic.IsOnComment (diagnostic : Diagnostic) : Prop :=
  diagnostic.message = "inline comments are not supported (ignored)"

/-- A remark is reported where it belongs in its line: at the first mark if it is on a comment, and
at the beginning otherwise. -/
inductive Diagnostic.IsReportedIn (diagnostic : Diagnostic) (source : String) (line : SourceLine) :
    Prop where
  | atMark (hcomment : diagnostic.IsOnComment) (hmark : '#' ∈ line.text)
      (hplace : (diagnostic.report source).place = some ⟨diagnostic.line, line.code.length + 1⟩)
  | atBeginning (hcomment : ¬ diagnostic.IsOnComment)
      (hplace : (diagnostic.report source).place = some ⟨diagnostic.line, 1⟩)

theorem Diagnostic.IsOnBlocks.not_isOnComment {diagnostic : Diagnostic}
    (hblocks : diagnostic.IsOnBlocks) : ¬ diagnostic.IsOnComment := by
  intro hcomment
  have hmessage := hblocks.message
  rw [hcomment] at hmessage
  exact absurd hmessage (by decide)

namespace EachLine

variable {source : String} {before after : List (List Char)} {piece : List Char}

/-- The remark on a comment is reported at the mark of the comment. -/
theorem isReportedIn_of_remark? (hplain : Source.plainBreaks source.toList = true)
    (hpieces : Source.pieces source.toList = before ++ piece :: after) {diagnostic : Diagnostic}
    (hremark : remark? before piece = some diagnostic) :
    diagnostic.line = before.length + 1 ∧ diagnostic.IsReportedIn source (lineOf before piece) := by
  unfold remark? at hremark
  split at hremark
  next hread =>
    cases hremark
    have hmark : '#' ∈ (lineOf before piece).text := by
      rw [← List.contains_iff_mem, contains_lineOf, List.contains_iff_mem]
      exact hread.2.2
    -- the mark itself is behind the code of the line
    have hbehind : (Source.dropReturn piece).dropWhile (· != '#') ≠ [] := by
      intro hnil
      exact absurd (List.dropWhile_eq_nil_iff.mp hnil '#' hmark) (by decide)
    have hline : Source.dropReturn piece = (lineOf before piece).code ++
        (Source.dropReturn piece).dropWhile (· != '#') :=
      List.takeWhile_append_dropWhile.symm
    exact ⟨rfl, .atMark rfl hmark (place_ofSpan hplain hpieces hline hbehind _ _)⟩
  next => cases hremark

/-- A remark on a line that is not empty, and no comment behind words, is reported at its
beginning. -/
theorem isReportedIn_of_span (hplain : Source.plainBreaks source.toList = true)
    (hpieces : Source.pieces source.toList = before ++ piece :: after)
    (hne : Source.dropReturn piece ≠ []) {diagnostic : Diagnostic}
    (hcomment : ¬ diagnostic.IsOnComment) (hline : diagnostic.line = before.length + 1)
    (hspan : diagnostic.span = span before piece) :
    diagnostic.IsReportedIn source (lineOf before piece) := by
  apply Diagnostic.IsReportedIn.atBeginning hcomment
  rw [Diagnostic.report, hspan, hline]
  exact place_ofSpan_span hplain hpieces hne _ _

/-- What the scanner remarks on is reported where it belongs. -/
theorem exists_line_of_mem_diagnosticsOf (hplain : Source.plainBreaks source.toList = true)
    {diagnostic : Diagnostic} (hmem : diagnostic ∈ diagnosticsOf (findings source)) :
    ∃ line ∈ Source.lines source, line.number = diagnostic.line ∧
      diagnostic.IsReportedIn source line := by
  obtain ⟨last, hlast, -, hremarks⟩ := findings_eq_collect source
  rw [hremarks] at hmem
  -- a remark on a comment behind words, or the one on a comment that is not closed
  rcases List.mem_append.mp hmem with hremark | hclosing
  · obtain ⟨front, back, hcollect⟩ := List.append_of_mem hremark
    obtain ⟨before, piece, after, hpieces, -, hpiece⟩ := exists_piece_of_collect_eq hcollect
    obtain ⟨hline, hreported⟩ := isReportedIn_of_remark? hplain hpieces hpiece
    exact ⟨_, lineOf_mem_lines hpieces, hline.symm, hreported⟩
  · rcases hlast.openCommentDiagnostic_cases with
      ⟨-, hnone⟩ | ⟨-, front, marker, inner, hpieces, hmarker, -, hone⟩
    · rw [hnone] at hclosing
      cases hclosing
    · rw [hone, List.mem_singleton] at hclosing
      subst hclosing
      have hne : Source.dropReturn marker ≠ [] := by
        apply dropReturn_ne_nil
        rw [beq_iff_eq.mp hmarker]
        decide
      have hcomment :
          "unclosed block comment (~~)" ≠ "inline comments are not supported (ignored)" := by
        decide
      exact ⟨_, lineOf_mem_lines hpieces, rfl,
        isReportedIn_of_span hplain hpieces hne hcomment rfl rfl⟩

end EachLine

/-- A remark on blocks has the number and the span of a token. -/
theorem exists_token_of_mem_blockDiagnostics {lines : List (LineToken × Statement)}
    {diagnostic : Diagnostic} (hmem : diagnostic ∈ blockDiagnostics lines) :
    ∃ token ∈ lines.map Prod.fst, diagnostic.line = token.line ∧ diagnostic.span = token.span := by
  -- a stray terminator is remarked on where it stands
  have hstray : ∀ diagnostic ∈ (strayLines (lines.map Prod.fst) (lines.map Prod.snd)).map
        (·.strayEndDiagnostic), ∃ token ∈ lines.map Prod.fst,
      diagnostic.line = token.line ∧ diagnostic.span = token.span := by
    intro diagnostic hmem
    obtain ⟨token, htoken, rfl⟩ := List.mem_map.mp hmem
    obtain ⟨line, hline, rfl⟩ := List.mem_map.mp htoken
    exact ⟨line.1, List.fst_mem_of_mem_zipIdx (List.mem_of_mem_filter hline), rfl, rfl⟩
  rcases blockDiagnostics_cases lines with ⟨-, hremarks⟩ | ⟨-, last, hlast, hremarks⟩
  · rw [hremarks] at hmem
    exact hstray diagnostic hmem
  · rw [hremarks] at hmem
    rcases List.mem_append.mp hmem with hmem | hmem
    · exact hstray diagnostic hmem
    · obtain rfl := List.mem_singleton.mp hmem
      exact ⟨last, List.mem_of_getLast? hlast, rfl, rfl⟩

variable {settings : Settings} {source : String}

/-- Every remark on a parsed source is reported where it belongs. -/
theorem exists_line_of_mem_diagnostics (hplain : Source.plainBreaks source.toList = true)
    {parsed : Parsed} (hparse : parse source = .ok parsed) {diagnostic : Diagnostic}
    (hmem : diagnostic ∈ parsed.diagnostics) :
    ∃ line ∈ Source.lines source, line.number = diagnostic.line ∧
      diagnostic.IsReportedIn source line := by
  obtain ⟨lines, hread, rfl⟩ := parse_eq_ok_iff.mp hparse
  rcases List.mem_append.mp hmem with hscanned | hblocks
  · exact EachLine.exists_line_of_mem_diagnosticsOf hplain hscanned
  · obtain ⟨token, htoken, hline, hspan⟩ := exists_token_of_mem_blockDiagnostics hblocks
    rw [(readLines_eq_ok_iff.mp hread).1] at htoken
    -- the token comes from a piece of the source, and covers it
    obtain ⟨before, piece, after, hpieces, hpiece⟩ := EachLine.exists_piece_of_mem_tokensOf htoken
    obtain ⟨hnumber, hcovered⟩ := EachLine.line_of_token? hpiece
    have hcomment := (isOnBlocks_of_mem_blockDiagnostics hblocks).not_isOnComment
    rw [hnumber] at hline
    rw [hcovered] at hspan
    exact ⟨_, EachLine.lineOf_mem_lines hpieces, hline.symm,
      EachLine.isReportedIn_of_span hplain hpieces (EachLine.dropReturn_ne_nil_of_token? hpiece)
        hcomment hline hspan⟩

/-! ## Failures -/

/-- All tokens are statements, with the names that are known where they stand. -/
def AllRead (tokens : List LineToken) : Prop := ∃ lines, readLines .empty tokens = .ok lines

/-- There is code for all lines. -/
def AllCoded (lines : List (LineToken × Statement)) : Prop :=
  ∀ content ∈ (lines.map Prod.snd).filterMap Statement.line?,
    ∀ cause, ¬ content.action.Malformed cause

/-- The token that a failure comes from, wherever it is reported: the first one that is no statement
with the names that are known there, or, if all of them are, the first one that there is no code
for. -/
inductive Failure.CausedBy (tokens : List LineToken) : Failure → LineToken → Prop where
  | reading {front back : List LineToken} {token : LineToken} {lines : List (LineToken × Statement)}
      {error : LineError} {span : Span} (htokens : tokens = front ++ token :: back)
      (hfront : readLines .empty front = .ok lines)
      (herror : readStatement (namesAfter (lines.map Prod.snd)) token = .error error) :
      CausedBy tokens (error.at span) token
  | generation {front back : List (LineToken × Statement)} {token : LineToken} {content : Line}
      {cause : CodeError} {span? : Option Span}
      (hread : readLines .empty tokens = .ok (front ++ (token, .line content) :: back))
      (hfront : AllCoded front) (hmalformed : content.action.Malformed cause) :
      CausedBy tokens (.generation cause.message span?) token

theorem AllRead.front {front back : List LineToken} (hread : AllRead (front ++ back)) :
    AllRead front := by
  obtain ⟨lines, hlines⟩ := hread
  obtain ⟨first, second, hfirst, -, -⟩ := readLines_append_eq_ok_iff.mp hlines
  exact ⟨first, hfirst⟩

theorem not_allRead {front : List LineToken} {token : LineToken}
    {lines : List (LineToken × Statement)} {error : LineError}
    (hfront : readLines .empty front = .ok lines)
    (herror : readStatement (namesAfter (lines.map Prod.snd)) token = .error error)
    (back : List LineToken) : ¬ AllRead (front ++ token :: back) := by
  rintro ⟨all, hall⟩
  -- a line that fails makes the whole list fail
  have hfails := readLines_eq_error_iff.mpr
    ⟨front, token, back, lines, error, rfl, hfront, herror, rfl⟩
  rw [hall] at hfails
  cases hfails

theorem AllCoded.front {front back : List (LineToken × Statement)}
    (hcoded : AllCoded (front ++ back)) : AllCoded front := by
  intro content hcontent
  apply hcoded
  rw [List.map_append, List.filterMap_append]
  exact List.mem_append_left _ hcontent

theorem not_allCoded {content : Line} {cause : CodeError}
    (hmalformed : content.action.Malformed cause) (front : List (LineToken × Statement))
    (token : LineToken) : ¬ AllCoded (front ++ [(token, .line content)]) := by
  intro hcoded
  have hcontent : content ∈
      ((front ++ [(token, Statement.line content)]).map Prod.snd).filterMap Statement.line? := by
    simp [Statement.line?]
  exact hcoded content hcontent cause hmalformed

/-- Of the items of a list only one can be the first to end what is true of the beginnings. -/
theorem eq_of_first {α : Type} {good : List α → Prop}
    (hgood : ∀ front back, good (front ++ back) → good front) {front back front' back' : List α}
    {a a' : α} (hlist : front ++ a :: back = front' ++ a' :: back') (hfront : good front)
    (ha : ¬ good (front ++ [a])) (hfront' : good front') (ha' : ¬ good (front' ++ [a'])) :
    a = a' := by
  have hnext {front between back back' : List α} {a a' : α} (ha : ¬ good (front ++ [a]))
      (hlonger : good (front ++ between)) (hrest : a :: back = between ++ a' :: back') :
      a = a' := by
    cases between with
    | nil => exact (List.cons.inj hrest).1
    | cons b between =>
        obtain ⟨rfl, -⟩ := List.cons.inj hrest
        rw [← List.singleton_append, ← List.append_assoc] at hlonger
        exact absurd (hgood _ _ hlonger) ha
  -- one of the two stands first, or both are the same
  rcases List.append_eq_append_iff.mp hlist with ⟨between, rfl, hrest⟩ | ⟨between, rfl, hrest⟩
  · exact hnext ha hfront' hrest
  · exact (hnext ha' hfront hrest).symm

/-- Failures to compile the same tokens come from the same one. -/
theorem Failure.CausedBy.unique {tokens : List LineToken} {failure failure' : Failure}
    {token token' : LineToken} (hcaused : failure.CausedBy tokens token)
    (hcaused' : failure'.CausedBy tokens token') : token = token' := by
  cases hcaused with
  | reading htokens hfront herror =>
      cases hcaused' with
      | reading htokens' hfront' herror' =>
          exact eq_of_first (fun _ _ => AllRead.front) (htokens.symm.trans htokens') ⟨_, hfront⟩
            (not_allRead hfront herror []) ⟨_, hfront'⟩ (not_allRead hfront' herror' [])
      | generation hread =>
          subst htokens
          -- lines that are all read have no failure of reading
          exact absurd ⟨_, hread⟩ (not_allRead hfront herror _)
  | generation hread hfront hmalformed =>
      cases hcaused' with
      | reading htokens hfront' herror =>
          subst htokens
          exact absurd ⟨_, hread⟩ (not_allRead hfront' herror _)
      | generation hread' hfront' hmalformed' =>
          have hsame := eq_of_first (fun _ _ => AllCoded.front)
            (Except.ok.inj (hread.symm.trans hread')) hfront (not_allCoded hmalformed _ _) hfront'
            (not_allCoded hmalformed' _ _)
          exact congrArg Prod.fst hsame

/-- A line with an action keeps the span of its token. -/
theorem span_of_readStatement {known : KnownNames} {token : LineToken} {content : Line}
    (hread : readStatement known token = .ok (.line content)) : content.span = token.span := by
  cases readStatement_eq_ok_iff.mp hread <;> rfl

theorem exists_append_of_filterMap_eq {α β : Type} {f : α → Option β} {list : List α}
    {front back : List β} {b : β} (hlist : list.filterMap f = front ++ b :: back) :
    ∃ before a after, list = before ++ a :: after ∧ before.filterMap f = front ∧ f a = some b := by
  obtain ⟨before, rest, rfl, hbefore, hrest⟩ := List.filterMap_eq_append_iff.mp hlist
  obtain ⟨skipped, a, after, rfl, hskipped, ha, -⟩ := List.filterMap_eq_cons_iff.mp hrest
  have hnone : skipped.filterMap f = [] := List.filterMap_eq_nil_iff.mpr hskipped
  refine ⟨before ++ skipped, a, after, (List.append_assoc _ _ _).symm, ?_, ha⟩
  rw [List.filterMap_append, hbefore, hnone, List.append_nil]

/-- Generation fails on the first line that there is no code for. -/
theorem causedBy_of_codeOf_eq_error {tokens : List LineToken} {lines : List (LineToken × Statement)}
    {failure : Failure} (hread : readLines .empty tokens = .ok lines)
    (hcode : codeOf settings (lines.map Prod.snd) = .error failure) :
    ∃ token ∈ tokens, failure.CausedBy tokens token ∧ failure.span? = some token.span := by
  obtain ⟨others, content, behind, hlines, hfailure, hothers⟩ :=
    List.findSome?_eq_some_iff.mp (codeOf_eq_error_iff.mp hcode)
  rw [List.filterMap_map] at hlines
  obtain ⟨front, ⟨token, statement⟩, back, rfl, hfront, hcontent⟩ :=
    exists_append_of_filterMap_eq hlines
  obtain ⟨cause, hmalformed, rfl⟩ := Line.failure?_eq_some_iff.mp hfailure
  -- only lines with an action have content
  obtain rfl : statement = .line content := by
    cases statement with
    | line other => exact congrArg Statement.line (Option.some.inj hcontent)
    | _ => cases hcontent
  have hline : (token, Statement.line content) ∈ front ++ (token, .line content) :: back := by
    simp
  have htoken : token ∈ tokens := by
    rw [← (readLines_eq_ok_iff.mp hread).1]
    exact List.mem_map_of_mem hline
  obtain ⟨-, known, hstatement⟩ := mem_of_readLines hread hline
  refine ⟨token, htoken, .generation hread ?_ hmalformed, ?_⟩
  · intro other hother
    rw [List.filterMap_map, hfront] at hother
    exact Line.failure?_eq_none_iff.mp (hothers other hother)
  · rw [Failure.span?, span_of_readStatement hstatement]

/-- Compiling fails on the line that a failure comes from. -/
theorem causedBy_of_compile {failure : Failure}
    (hcompile : compile settings source = .error failure) :
    ∃ token ∈ tokensOf (findings source),
      failure.CausedBy (tokensOf (findings source)) token ∧ failure.span? = some token.span := by
  rw [compile_eq_compileFindings, compileFindings, bind_eq_error_iff] at hcompile
  rcases hcompile with hread | ⟨lines, hread, hcode⟩
  · obtain ⟨front, token, back, lines, error, htokens, hfront, herror, rfl⟩ :=
      readLines_eq_error_iff.mp hread
    exact ⟨token, by simp [htokens], .reading htokens hfront herror, error.span?_at token.span⟩
  · rcases bind_eq_error_iff.mp hcode with hcode | ⟨code, -, hreturn⟩
    · exact causedBy_of_codeOf_eq_error hread hcode
    · cases hreturn

/-- There is a report on every failure that has a span. -/
theorem Failure.exists_report {failure : Failure} {span : Span}
    (hspan : failure.span? = some span) (source : String) :
    ∃ title message, failure.report? source = some (.ofSpan title message source (some span)) := by
  cases failure with
  | parse message other =>
      cases hspan
      exact ⟨_, _, rfl⟩
  | grouping other =>
      cases hspan
      exact ⟨_, _, rfl⟩
  | generation message span? =>
      obtain rfl : span? = some span := hspan
      exact ⟨_, _, rfl⟩
  | settings | file => cases hspan

/-- A failure is reported at the beginning of the line that it comes from. -/
theorem exists_report_of_compile (hplain : Source.plainBreaks source.toList = true)
    {failure : Failure} (hcompile : compile settings source = .error failure) :
    ∃ token, failure.CausedBy (tokensOf (findings source)) token ∧
      ∃ line ∈ Source.lines source, line.token? = some token ∧
        ∃ report, failure.report? source = some report ∧ report.place = some ⟨line.number, 1⟩ := by
  obtain ⟨token, htoken, hcaused, hspan⟩ := causedBy_of_compile hcompile
  obtain ⟨before, piece, after, hpieces, hpiece⟩ := EachLine.exists_piece_of_mem_tokensOf htoken
  obtain ⟨title, message, hreport⟩ := failure.exists_report hspan source
  refine ⟨token, hcaused, _, EachLine.lineOf_mem_lines hpieces, ?_, _, hreport, ?_⟩
  · rw [EachLine.token?_lineOf (EachLine.read_of_token? hpiece).1, hpiece]
  · rw [(EachLine.line_of_token? hpiece).2]
    exact EachLine.place_ofSpan_span hplain hpieces
      (EachLine.dropReturn_ne_nil_of_token? hpiece) _ _

/-! ## All reports -/

/-- **Reports point to the lines that they are about.**  Where lines end at line feeds only, every
remark on a compiled source is reported at its number: at the first mark of the line if it is on a
comment, and at the beginning of the line otherwise.  Every failure to compile a source comes from
exactly one token, and is reported at the beginning of the line of that token. -/
theorem reports_of_compile (settings : Settings) {source : String}
    (hplain : Source.plainBreaks source.toList = true) :
    (∀ compiled, compile settings source = .ok compiled → ∀ diagnostic ∈ compiled.diagnostics,
      ∃ line ∈ Source.lines source, line.number = diagnostic.line ∧
        diagnostic.IsReportedIn source line) ∧
    ∀ failure, compile settings source = .error failure →
      ∃ token, (∀ other, failure.CausedBy (tokensOf (findings source)) other ↔ other = token) ∧
        ∃ line ∈ Source.lines source, line.token? = some token ∧
          ∃ report, failure.report? source = some report ∧
            report.place = some ⟨line.number, 1⟩ := by
  constructor
  · intro compiled hcompile diagnostic hmem
    obtain ⟨parsed, code, hparse, -, rfl⟩ := compile_eq_ok_iff.mp hcompile
    exact exists_line_of_mem_diagnostics hplain hparse hmem
  · intro failure hcompile
    -- there is a token that the failure comes from, and only one
    obtain ⟨token, hcaused, hreport⟩ := exists_report_of_compile hplain hcompile
    refine ⟨token, ?_, hreport⟩
    intro other
    constructor
    · intro hother
      exact hother.unique hcaused
    · rintro rfl
      exact hcaused

/-- Behind wide characters and returns, a comment and a terminator that closes nothing are remarked
on, and behind a block comment there is no code for two words of arithmetic. -/
theorem reports_of_compile_of_returns :
    let source := "置 甲 1\r\n\t印 甲 # 注 #\r\n终\r\n"
    let comment : Diagnostic := ⟨"inline comments are not supported (ignored)", 2, ⟨20, 27⟩⟩
    let stray : Diagnostic := ⟨"block end '终' without a matching block opener", 3, ⟨29, 32⟩⟩
    let faulty := "~~\r\n注\r\n~~\r\n印 ``甲``\r\n  加 甲 1"
    let failure : Failure :=
      .generation "ADD expects 3 arguments: result left right, got 2" (some ⟨26, 37⟩)
    (compile .default source).map Compiled.diagnostics = .ok [comment, stray] ∧
    (∀ diagnostic ∈ [comment, stray],
      ∃ line ∈ Source.lines source, line.number = diagnostic.line ∧
        diagnostic.IsReportedIn source line) ∧
    compile .default faulty = .error failure ∧
      ∃ token, (∀ other, failure.CausedBy (tokensOf (findings faulty)) other ↔ other = token) ∧
        ∃ line ∈ Source.lines faulty, line.token? = some token ∧
          ∃ report, failure.report? faulty = some report ∧
            report.place = some ⟨line.number, 1⟩ := by
  intro source comment stray faulty failure
  have hdiagnostics :
      (compile .default source).map Compiled.diagnostics = .ok [comment, stray] := by
    decide +kernel
  obtain ⟨compiled, hcompile, hremarks⟩ := map_eq_ok_iff.mp hdiagnostics
  have hcode : (compile .default faulty).map Compiled.code = .error failure := by
    decide +kernel
  have hfails : compile .default faulty = .error failure := map_eq_error_iff.mp hcode
  have hplain : Source.plainBreaks source.toList = true := by decide +kernel
  have hplain' : Source.plainBreaks faulty.toList = true := by decide +kernel
  have hreports := reports_of_compile .default hplain
  refine ⟨hdiagnostics, ?_, hfails, (reports_of_compile .default hplain').2 failure hfails⟩
  rw [← hremarks]
  exact hreports.1 compiled hcompile

end LineScript
