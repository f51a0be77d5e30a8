import LineScript.Proofs.Code.Emission
import LineScript.Proofs.Program.KnownNames
import LineScript.Proofs.Source.EachLine
import LineScript.Proofs.Text.Names

/-!
# Lines with an action

The simplest lines are an action word and tokens behind it, with single blanks between them.  Behind
a source that lines can be added to (`Continuable`), all that happens to such a line is that its
action is read from the words of its tokens (`exists_parse_append_iff`), wherever in the program the
line stands (`Continuable.goesOn`).

The shortest programs are one such line.  They are parsed as their action
(`exists_parse_actionLine_iff`), and their code is that of the action (`compile_of_parse_line`).

## Strategy

A line goes through three stages, each of which has to be passed without a loss.

* **Scanning.**  The line has a token of its own (`token?_actionLine`): it is no marker and stands
  in no block comment, nothing in it is a mark, and its first word is no ornament.  Line feeds cut
  the source as expected because no token contains one (`pieces_actionLine`).
* **The loop over lines.**  Lines before the new one are read as they were and leave the names that
  they declare; lines behind it are read with the names of the new one added
  (`exists_parse_iff_of_tokensOf`).
* **The line.**  With arguments it is neither a header nor a terminator, and if none of its words is
  an arrow, the action is read from them (`readStatement_actionLine`).
-/

namespace LineScript

variable {known : KnownNames} {word : String} {action : ActionWord} {tokens : List String}

/-! ## Action words -/

/-- Action words are names, and nothing else that a line may begin with. -/
theorem ActionWord.isIdentifier_of_ofSpelling? (hword : ofSpelling? word = some action) :
    isIdentifier word = true ∧ isPictograph word = false ∧ isBlockEnd word = false := by
  unfold ofSpelling? at hword
  split at hword
  case h_45 => cases hword
  all_goals decide +kernel

theorem LineState.ofGlyph?_of_isIdentifier (hidentifier : isIdentifier word = true) :
    ofGlyph? word = none := by
  unfold ofGlyph?
  split
  case h_6 => rfl
  all_goals
    rw [isIdentifier_eq_false_of_any (by decide)] at hidentifier
    cases hidentifier

theorem Writable.of_ofSpelling? (hword : ActionWord.ofSpelling? word = some action) :
    Writable word :=
  .of_isIdentifier (ActionWord.isIdentifier_of_ofSpelling? hword).1

/-! ## Scanning -/

namespace EachLine

variable {before : List (List Char)}

/-- Outside of block comments an action word and tokens are scanned as the word and the words of
the tokens. -/
theorem token?_actionLine (heven : Even (before.countP isMarker))
    (hword : ActionWord.ofSpelling? word = some action)
    (htokens : ∀ token ∈ tokens, Writable token) :
    let line := (joinWords (word :: tokens)).toList
    token? before line =
      some ⟨word, lineWords tokens, .continued, none, before.length + 1, span before line⟩ := by
  intro line
  obtain ⟨hidentifier, hpictograph, -⟩ := ActionWord.isIdentifier_of_ofSpelling? hword
  have hall : ∀ token ∈ word :: tokens, Writable token :=
    List.forall_mem_cons.mpr ⟨.of_ofSpelling? hword, htokens⟩
  have hwords : words line = word :: lineWords tokens :=
    (words_of_not_mem (mark_of_writable hall)).trans
      (lineWords_cons_of_isIdentifier hidentifier tokens)
  have hmarker : isMarker line = false := by
    refine isMarker_eq_false_of_mem_words (hwords ▸ List.mem_cons_self) ?_
    rintro rfl
    exact Bool.eq_false_iff.mp (isIdentifier_eq_false_of_any (by decide)) hidentifier
  -- a line with words does not begin with a comment
  have hbegins : beginsWithWord line = true := by
    by_contra hno
    rw [Bool.not_eq_true, ← words_eq_nil_iff, hwords] at hno
    cases hno
  -- neither the word of an action nor an identifier is an ornament
  have hstate : state? (word :: lineWords tokens) = none :=
    LineState.ofGlyph?_of_isIdentifier hidentifier
  have hpicture : pictograph? (word :: lineWords tokens) = none := by
    simp [pictograph?, Option.filter, hpictograph]
  have hread : IsRead before line := ⟨hmarker, heven⟩
  simp [token?, hwords, hread, hbegins, behindState, hstate, behindPictograph, hpicture]

end EachLine

/-! ## Reading -/

/-- Without a marker there is no arrow. -/
theorem readArrow?_of_ofMarker? {token : LineToken}
    (hmarker : ∀ word ∈ token.args, ArrowDirection.ofMarker? word = none) :
    readArrow? token = .ok none := by
  have hnone : token.args.filterMap ArrowDirection.ofMarker? = [] :=
    List.filterMap_eq_nil_iff.mpr hmarker
  rw [readArrow?, hnone]

/-- A line with arguments and without an arrow is read as its action. -/
theorem readStatement_of_ofSpelling? {token : LineToken}
    (hword : ActionWord.ofSpelling? token.action = some action) (hne : token.args ≠ [])
    (hmarker : ∀ word ∈ token.args, ArrowDirection.ofMarker? word = none) :
    readStatement known token = (readAction known action token.args).map token.statement := by
  obtain ⟨-, -, hend⟩ := ActionWord.isIdentifier_of_ofSpelling? hword
  -- with arguments a line is no header
  have hheader : token.headerName? = none := if_neg (by simpa using hne)
  rw [readStatement, hend, if_neg Bool.false_ne_true, readArrow?_of_ofMarker? hmarker]
  simp only [hheader, bind, Except.bind]
  rw [hword]
  cases hread : readAction known action token.args with
  | error cause =>
      simp only [hread]
      rfl
  | ok act =>
      simp only [hread]
      rfl

/-- A line with an action word and tokens behind it is read as its action. -/
theorem readStatement_actionLine (hword : ActionWord.ofSpelling? word = some action)
    (hne : tokens ≠ []) (htokens : ∀ token ∈ tokens, Writable token) (line : Nat) (span : Span) :
    let token : LineToken := ⟨word, lineWords tokens, .continued, none, line, span⟩
    readStatement known token = (readAction known action token.args).map token.statement :=
  readStatement_of_ofSpelling? hword (lineWords_ne_nil hne htokens)
    (ofMarker?_of_mem_lineWords htokens)

/-- A source that lines can be added to. -/
structure Continuable (source : String) (statements : List Statement) (known : KnownNames) :
    Prop where
  parsed : ∃ parsed, parse source = .ok parsed ∧ parsed.program.statements = statements
  /-- The source ends with a complete line, -/
  complete : Source.IsComplete source.toList
  /-- and not in a block comment. -/
  outside : Even ((Source.pieces source.toList).countP EachLine.isMarker)
  /-- The names that the statements declare are known behind it. -/
  names : known.Of statements

theorem continuable_empty : Continuable "" [] .empty where
  parsed := ⟨_, rfl, rfl⟩
  complete := .inl rfl
  outside := by decide
  names := of_namesAfter []

/-- The statement of a line with an action behind a source. -/
def statementBehind (before line : String) (action : Action) : Statement :=
  let pieces := Source.pieces before.toList
  .line ⟨action, .continued, none, pieces.length + 1, EachLine.span pieces line.toList⟩

/-- A line behind a source goes on with an action: the program of both has the statements of the
source and one with the action, and it has these in front of all others if the source goes on. -/
structure GoesOn (before : String) (earlier : List Statement) (line : String) (action : Action) :
    Prop where
  last : ∃ parsed, parse (before ++ line) = .ok parsed ∧
    parsed.program.statements = earlier ++ [statementBehind before line action]
  inner : ∀ after parsed, parse (before ++ line ++ "\n" ++ after) = .ok parsed →
    ∃ later, parsed.program.statements = earlier ++ statementBehind before line action :: later

/-- A source with the tokens of another one in front has the statements of that one in front, and
goes on with what its next token is read as. -/
theorem exists_parse_iff_of_tokensOf {before source : String} {earlier statements : List Statement}
    {token : LineToken} {later : List LineToken} (hbefore : Continuable before earlier known)
    (htokens : tokensOf (findings source) = tokensOf (findings before) ++ token :: later) :
    (∃ parsed, parse source = .ok parsed ∧ parsed.program.statements = statements) ↔
      ∃ statement more, readStatement known token = .ok statement ∧
        readLines (known.declareAll statement.declares) later = .ok more ∧
        statements = earlier ++ statement :: more.map Prod.snd := by
  obtain ⟨parsed, hparse, rfl⟩ := hbefore.parsed
  obtain ⟨front, hfront, rfl⟩ := parse_eq_ok_iff.mp hparse
  have hnames := hbefore.names.eq_namesAfter
  rw [statements_programOf] at hnames ⊢
  -- the lines before are read as they were, and leave the names behind them
  have hlines (lines : List (LineToken × Statement)) :
      readLines .empty (tokensOf (findings source)) = .ok lines ↔
        ∃ statement more, readStatement known token = .ok statement ∧
          readLines (known.declareAll statement.declares) later = .ok more ∧
          lines = front ++ (token, statement) :: more := by
    rw [htokens, readLines_append_eq_ok_iff, hnames]
    constructor
    · rintro ⟨first, second, hfirst, hsecond, rfl⟩
      cases hfront.symm.trans hfirst
      obtain ⟨statement, more, hstatement, hmore, rfl⟩ := readLines_cons_eq_ok_iff.mp hsecond
      exact ⟨statement, more, hstatement, hmore, rfl⟩
    · rintro ⟨statement, more, hstatement, hmore, rfl⟩
      exact ⟨front, _, hfront, readLines_cons_eq_ok_iff.mpr ⟨_, _, hstatement, hmore, rfl⟩, rfl⟩
  constructor
  · rintro ⟨parsed, hsource, rfl⟩
    obtain ⟨lines, hread, rfl⟩ := parse_eq_ok_iff.mp hsource
    obtain ⟨statement, more, hstatement, hmore, rfl⟩ := (hlines lines).mp hread
    refine ⟨statement, more, hstatement, hmore, ?_⟩
    rw [statements_programOf, List.map_append, List.map_cons]
  · rintro ⟨statement, more, hstatement, hmore, rfl⟩
    refine ⟨_, parse_eq_ok_iff.mpr ⟨_, (hlines _).mpr ⟨statement, more, hstatement, hmore, rfl⟩,
      rfl⟩, ?_⟩
    rw [statements_programOf, List.map_append, List.map_cons]

/-- Behind a source that lines can be added to, a line is parsed exactly if its action is read, and
then it is this action. -/
theorem exists_parse_append_iff {before rest : String} {earlier : List Statement}
    {after : List (List Char)} (hbefore : Continuable before earlier known)
    (hword : ActionWord.ofSpelling? word = some action) (hne : tokens ≠ [])
    (htokens : ∀ token ∈ tokens, Writable token)
    (hrest : Source.pieces rest.toList = (joinWords (word :: tokens)).toList :: after) :
    ∃ later, (after = [] → later = []) ∧ ∀ statements,
      (∃ parsed, parse (before ++ rest) = .ok parsed ∧ parsed.program.statements = statements) ↔
        ∃ act more, readAction known action (lineWords tokens) = .ok act ∧
          readLines (known.declareAll act.declares) later = .ok more ∧
          statements = earlier ++
            statementBehind before (joinWords (word :: tokens)) act :: more.map Prod.snd := by
  -- the token of the line, and those of the lines behind it
  obtain ⟨later, hlater, hcollect⟩ := EachLine.exists_collect_append
    (EachLine.token?_actionLine hbefore.outside hword htokens) after
  refine ⟨later, hlater, fun statements => ?_⟩
  rw [← hrest, ← Source.pieces_append hbefore.complete, ← String.toList_append,
    ← EachLine.tokensOf_findings, ← EachLine.tokensOf_findings] at hcollect
  rw [exists_parse_iff_of_tokensOf hbefore hcollect]
  simp only [readStatement_actionLine hword hne htokens]
  constructor
  · rintro ⟨statement, more, hstatement, hmore, rfl⟩
    obtain ⟨act, hact, rfl⟩ := map_eq_ok_iff.mp hstatement
    exact ⟨act, more, hact, hmore, rfl⟩
  · rintro ⟨act, more, hact, hmore, rfl⟩
    exact ⟨_, more, map_eq_ok_iff.mpr ⟨act, hact, rfl⟩, hmore, rfl⟩

theorem pieces_actionLine (hword : ActionWord.ofSpelling? word = some action)
    (htokens : ∀ token ∈ tokens, Writable token) :
    let line := (joinWords (word :: tokens)).toList
    '\n' ∉ line ∧ Source.pieces line = [line] := by
  intro line
  have hfeed : '\n' ∉ line := by
    intro hmem
    -- the only white space in the line is the blank
    have hblank := blank_of_writable
      (List.forall_mem_cons.mpr ⟨.of_ofSpelling? hword, htokens⟩) _ hmem (by decide)
    cases hblank
  refine ⟨hfeed, Source.pieces_of_not_mem (fun hnil => ?_) hfeed⟩
  have hwords : (Text.words line).map String.ofList = word :: lineWords tokens :=
    lineWords_cons_of_isIdentifier (ActionWord.isIdentifier_of_ofSpelling? hword).1 tokens
  rw [hnil] at hwords
  cases hwords

/-- Behind a source that lines can be added to, a line goes on with the action that its tokens are
read as. -/
theorem Continuable.goesOn {before : String} {earlier : List Statement} {act : Action}
    (hbefore : Continuable before earlier known)
    (hword : ActionWord.ofSpelling? word = some action) (hne : tokens ≠ [])
    (htokens : ∀ token ∈ tokens, Writable token)
    (hread : readAction known action (lineWords tokens) = .ok act) :
    GoesOn before earlier (joinWords (word :: tokens)) act := by
  obtain ⟨hfeed, hpieces⟩ := pieces_actionLine hword htokens
  constructor
  · obtain ⟨later, hlater, hiff⟩ := exists_parse_append_iff hbefore hword hne htokens hpieces
    refine (hiff _).mpr ⟨act, [], hread, ?_, rfl⟩
    rw [hlater rfl]
    rfl
  · -- with further lines behind it: its piece is the first one of the rest
    intro after parsed hparse
    have hrest : Source.pieces (joinWords (word :: tokens) ++ "\n" ++ after).toList =
        (joinWords (word :: tokens)).toList :: Source.pieces after.toList := by
      rw [String.toList_append, String.toList_append, List.append_assoc]
      exact (Source.pieces_append_lineFeed _ _).trans
        (congrArg (· ++ _) (splitOnP_of_not_mem hfeed))
    obtain ⟨later, -, hiff⟩ := exists_parse_append_iff hbefore hword hne htokens hrest
    have hassoc (line : String) :
        before ++ line ++ "\n" ++ after = before ++ (line ++ "\n" ++ after) := by
      simp only [String.append_assoc]
    rw [hassoc] at hparse
    obtain ⟨other, more, hother, -, hstatements⟩ := (hiff _).mp ⟨parsed, hparse, rfl⟩
    cases hread.symm.trans hother
    exact ⟨_, hstatements⟩

/-- A source of one line is parsed exactly if its action is read, and then it is this action. -/
theorem exists_parse_actionLine_iff (hword : ActionWord.ofSpelling? word = some action)
    (hne : tokens ≠ []) (htokens : ∀ token ∈ tokens, Writable token) :
    ∃ span, ∀ statements,
      (∃ parsed, parse (joinWords (word :: tokens)) = .ok parsed ∧
        parsed.program.statements = statements) ↔
      ∃ act, readAction .empty action (lineWords tokens) = .ok act ∧
        statements = [.line ⟨act, .continued, none, 1, span⟩] := by
  obtain ⟨later, hlater, hiff⟩ := exists_parse_append_iff continuable_empty hword hne htokens
    (pieces_actionLine hword htokens).2
  obtain rfl := hlater rfl
  refine ⟨EachLine.span [] (joinWords (word :: tokens)).toList, fun statements => ?_⟩
  rw [String.empty_append] at hiff
  rw [hiff]
  constructor
  · rintro ⟨act, more, hact, hmore, rfl⟩
    -- no line is left, and no statement
    cases hmore
    exact ⟨act, hact, rfl⟩
  · rintro ⟨act, hact, rfl⟩
    exact ⟨act, [], hact, rfl, rfl⟩

/-! ## Generating -/

/-- The code of a program of one line is that of its action, at the outermost level. -/
theorem compile_of_parse_line {settings : Settings} {source text : String} {parsed : Parsed}
    {content : Line} (hparse : parse source = .ok parsed)
    (hstatements : parsed.program.statements = [.line content])
    (hcode : content.action.code settings = .ok text) (htext : text ≠ "")
    (hplain : Statement.isIndexSet (.line content) = false) :
    compile settings source = .ok
      ⟨if settings.trailingNewline then text ++ "\n" else text, parsed.diagnostics⟩ := by
  -- the first line is at the outermost level, whatever its action
  have hlevel : Layout.levelOf {} content.action.word = 0 := by
    unfold Layout.levelOf
    split <;> rfl
  have hemit : emit settings {} [.line content] =
      ⟨[⟨0, text⟩], none, Layout.after {} (.line content)⟩ := by
    rw [emit, hcode, hlevel]
    rfl
  refine compile_eq_ok_iff.mpr ⟨parsed, _, hparse, code_generate_eq_ok_iff.mpr ?_, rfl⟩
  rw [hstatements, hemit]
  refine ⟨rfl, ?_⟩
  have hprelude : preludeOf settings [.line content] = [] := by
    simp [preludeOf, hplain]
  have hrender : (CodeLine.mk 0 text).render settings.indent = text := by
    simp [CodeLine.render]
  simp [hprelude, renderLines, hrender, htext]

end LineScript
