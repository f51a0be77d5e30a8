import LineScript.Compile
import LineScript.Proofs.Code.Emission
import LineScript.Proofs.Statement.Texts

/-!
# One line of code for each action

Texts of the source go into the code in many ways: as they are, in quotes of two kinds, as raw
operands, as names of exceptions.  None of these ways lets a line break in: between double quotes it
is escaped (`singleLine_doubleQuoted`), and everywhere else there is none to begin with, because the
only white space in the texts of a program is the blank.

Main statement: the code of a source is the helper function, if it is needed, and one line for
each line of the program, and no line contains a line break (`code_of_compile`).

## Strategy

Three facts meet in the main statement.

* The texts of a program that was read are free of line breaks (`singleLine_texts_of_parse`).  This
  is carried from the characters of the source through words, tokens and expressions to actions.
* From such texts each way of writing them makes code on a single line.  There is one lemma for each
  function of the code generator, and `Action.singleLine_code` has a case for each form of action.
* The lines of code stand in the order of the lines of the program (`forall₂_line_emit`), so that
  nothing is left over on either side.

The indent and the names of exceptions come from the settings, and are assumed to be without line
breaks; nothing in the source can make up for those.
-/

namespace LineScript

/-- A text without line breaks. -/
def SingleLine (text : String) : Prop := OnlyOf (fun c => c ≠ '\n' ∧ c ≠ '\r') text

instance (text : String) : Decidable (SingleLine text) :=
  inferInstanceAs (Decidable (OnlyOf (fun c => c ≠ '\n' ∧ c ≠ '\r') text))

@[simp] theorem singleLine_append {front back : String} :
    SingleLine (front ++ back) ↔ SingleLine front ∧ SingleLine back := by
  unfold SingleLine OnlyOf
  rw [String.toList_append, List.forall_mem_append]

theorem SingleLine.intercalate {separator : String} {texts : List String}
    (hseparator : SingleLine separator) (htexts : ∀ text ∈ texts, SingleLine text) :
    SingleLine (separator.intercalate texts) := by
  induction texts with
  | nil =>
      rw [String.intercalate_nil]
      decide
  | cons text rest ih =>
      obtain ⟨htext, hrest⟩ := List.forall_mem_cons.mp htexts
      cases rest with
      | nil => simpa using htext
      | cons next others =>
          rw [String.intercalate_cons_cons, singleLine_append, singleLine_append]
          exact ⟨⟨htext, hseparator⟩, ih hrest⟩

/-- A line of code has no more line breaks than its text and its indentation. -/
theorem CodeLine.singleLine_render {indent : String} {line : CodeLine} (hindent : SingleLine indent)
    (htext : SingleLine line.text) : SingleLine (line.render indent) := by
  have hlevel (level : Nat) : SingleLine (String.join (List.replicate level indent)) := by
    intro c hc
    rw [String.toList_join] at hc
    obtain ⟨copy, hcopy, hmem⟩ := List.mem_flatMap.mp hc
    rw [List.eq_of_mem_replicate hcopy] at hmem
    exact hindent c hmem
  exact singleLine_append.mpr ⟨hlevel line.level, htext⟩

/-! ## Literals -/

namespace Code

/-- A literal has no line break if its quotes are none and nothing is written as one. -/
theorem singleLine_quoted {quote : Char} {escape : Char → List Char} {text : String}
    (hquote : quote ≠ '\n' ∧ quote ≠ '\r')
    (hescape : ∀ c ∈ text.toList, ∀ d ∈ escape c, d ≠ '\n' ∧ d ≠ '\r') :
    SingleLine (String.ofList (quote :: text.toList.flatMap escape ++ [quote])) := by
  intro d hd
  rw [String.toList_ofList] at hd
  simp only [List.cons_append, List.mem_cons, List.mem_append, List.mem_flatMap,
    List.not_mem_nil, or_false] at hd
  rcases hd with rfl | ⟨c, hc, hmem⟩ | rfl
  · exact hquote
  · exact hescape c hc d hmem
  · exact hquote

/-- Escaping leaves no line break between double quotes. -/
@[simp] theorem singleLine_doubleQuoted (text : String) : SingleLine (doubleQuoted text) := by
  refine singleLine_quoted (by decide) fun c _ => ?_
  unfold escapeDouble
  split
  case h_6 hfeed hreturn _ => simpa using ⟨hfeed, hreturn⟩
  all_goals simp

/-- Single quotes keep line breaks, and bring in none. -/
theorem singleLine_singleQuoted {text : String} (htext : SingleLine text) :
    SingleLine (singleQuoted text) := by
  refine singleLine_quoted (by decide) fun c hc => ?_
  unfold escapeSingle
  split
  · simp
  · split
    · simp
    · simpa using htext c hc

end Code

/-! ## Expressions -/

theorem BinaryOp.singleLine_symbol (op : BinaryOp) : SingleLine op.symbol := by
  cases op <;> decide

theorem ArithOp.singleLine_symbol (op : ArithOp) : SingleLine op.symbol := by
  cases op <;> decide

/-- The code of a key of a dictionary. -/
def Expr.keyCode : Expr → String
  | .ident name => Code.doubleQuoted name
  | key => key.code

theorem Expr.entryCodes_cons (key value : Expr) (rest : List (Expr × Expr)) :
    Expr.entryCodes ((key, value) :: rest) =
      (key.keyCode ++ ": " ++ value.code) :: Expr.entryCodes rest := by
  cases key <;> rfl

theorem Expr.singleLine_keyCode {key : Expr} (hcode : SingleLine key.code) :
    SingleLine key.keyCode := by
  unfold keyCode
  split
  · exact Code.singleLine_doubleQuoted _
  · exact hcode

mutual

/-- Where the texts in an expression have no line breaks, its code has none. -/
theorem Expr.singleLine_code : (expr : Expr) → (∀ text ∈ expr.texts, SingleLine text) →
    SingleLine expr.code
  | .number text, htexts => htexts text (List.mem_singleton_self text)
  | .ident name, htexts => htexts name (List.mem_singleton_self name)
  | .bool true, _ | .bool false, _ | .none, _ => by decide
  | .str text _, _ => Code.singleLine_doubleQuoted text
  | .binary op left right, htexts => by
      obtain ⟨hleft, hright⟩ := List.forall_mem_append.mp htexts
      simp +decide [code, left.singleLine_code hleft, op.singleLine_symbol,
        right.singleLine_code hright]
  | .unary .not operand, htexts | .unary .neg operand, htexts | .unary .plus operand, htexts => by
      simp +decide [code, operand.singleLine_code htexts]
  | .list elements, htexts => by
      have helements := SingleLine.intercalate (by decide : SingleLine ", ")
        (Expr.singleLine_codes elements htexts)
      simp +decide [code, helements]
  | .dict entries, htexts => by
      have hentries := SingleLine.intercalate (by decide : SingleLine ", ")
        (Expr.singleLine_entryCodes entries htexts)
      simp +decide [code, hentries]
  | .index container position, htexts => by
      obtain ⟨hcontainer, hposition⟩ := List.forall_mem_append.mp htexts
      simp +decide [code, container.singleLine_code hcontainer,
        position.singleLine_code hposition]
  | .call func args, htexts => by
      obtain ⟨hfunc, hargs⟩ := List.forall_mem_cons.mp htexts
      have hcodes := SingleLine.intercalate (by decide : SingleLine ", ")
        (Expr.singleLine_codes args hargs)
      simp +decide [code, hfunc, hcodes]

theorem Expr.singleLine_codes : (exprs : List Expr) →
    (∀ text ∈ Expr.textsOfAll exprs, SingleLine text) → ∀ code ∈ Expr.codes exprs, SingleLine code
  | [], _ => by simp [codes]
  | expr :: rest, htexts => by
      obtain ⟨hexpr, hrest⟩ := List.forall_mem_append.mp htexts
      exact List.forall_mem_cons.mpr ⟨expr.singleLine_code hexpr, Expr.singleLine_codes rest hrest⟩

theorem Expr.singleLine_entryCodes : (entries : List (Expr × Expr)) →
    (∀ text ∈ Expr.textsOfEntries entries, SingleLine text) →
    ∀ code ∈ Expr.entryCodes entries, SingleLine code
  | [], _ => by simp [entryCodes]
  | (key, value) :: rest, htexts => by
      obtain ⟨hentry, hrest⟩ := List.forall_mem_append.mp htexts
      obtain ⟨hkey, hvalue⟩ := List.forall_mem_append.mp hentry
      have hkeyCode := Expr.singleLine_keyCode (key.singleLine_code hkey)
      rw [Expr.entryCodes_cons]
      refine List.forall_mem_cons.mpr ⟨?_, Expr.singleLine_entryCodes rest hrest⟩
      simp +decide [hkeyCode, value.singleLine_code hvalue]

end

/-! ## Actions -/

theorem Code.singleLine_rawOperand {word : String} (hword : SingleLine word) :
    SingleLine (rawOperand word) := by
  unfold rawOperand
  split
  · decide
  · split
    · decide
    · split
      · decide
      · split
        · exact hword
        · exact singleLine_doubleQuoted word

theorem Code.singleLine_assignedCode (settings : Settings) {value : Expr}
    (htexts : ∀ text ∈ value.texts, SingleLine text) :
    SingleLine (assignedCode settings value) := by
  have hcode := value.singleLine_code htexts
  unfold assignedCode
  split
  -- a word alone may become a call
  next word =>
    have hword : SingleLine word := htexts word (List.mem_singleton_self word)
    split
    · simp +decide [hword]
    · exact hcode
  next word =>
    have hword : SingleLine word := htexts word (List.mem_singleton_self word)
    split
    · simp +decide [hword]
    · exact hcode
  next => exact hcode

theorem Settings.singleLine_exceptionName {settings : Settings}
    (hexceptions : ∀ entry ∈ settings.exceptionNames.entries, SingleLine entry.2) {name : String}
    (hname : SingleLine name) : SingleLine (settings.exceptionName name) := by
  unfold exceptionName WordMap.get?
  cases hlookup : settings.exceptionNames.entries.lookup name with
  | none => exact hname
  | some coded =>
      obtain ⟨front, back, hentries, -⟩ := List.lookup_eq_some_iff.mp hlookup
      refine hexceptions (name, coded) ?_
      rw [hentries]
      exact List.mem_append_right front List.mem_cons_self

/-- Where the texts in an action have no line breaks, its code is a single line. -/
theorem Action.singleLine_code {settings : Settings}
    (hexceptions : ∀ entry ∈ settings.exceptionNames.entries, SingleLine entry.2)
    {action : Action} (htexts : ∀ text ∈ action.texts, SingleLine text) {code : String}
    (hcode : action.code settings = .ok code) : SingleLine code := by
  have hcomma : SingleLine ", " := by decide
  cases action with
  | set name value =>
      cases hcode
      obtain ⟨hname, hvalue⟩ := List.forall_mem_cons.mp htexts
      simp +decide [hname, Code.singleLine_assignedCode settings hvalue]
  -- the container is in the code twice, once as a literal
  | indexSet container index value =>
      obtain ⟨hcontainer, hoperands⟩ := List.forall_mem_cons.mp htexts
      obtain ⟨hindex, hvalue⟩ := List.forall_mem_append.mp hoperands
      have hindexCode := index.singleLine_code hindex
      have hvalueCode := value.singleLine_code hvalue
      rw [Action.code] at hcode
      split at hcode
      · cases hcode
        simp +decide [Code.singleLine_singleQuoted hcontainer, hcontainer, hindexCode, hvalueCode]
      · cases hcode
        simp +decide [hcontainer, hindexCode, hvalueCode]
  | print value? | returnValue value? =>
      cases value? with
      | none =>
          cases hcode
          decide
      | some value =>
          cases hcode
          simp +decide [value.singleLine_code htexts]
  | call func args =>
      cases hcode
      obtain ⟨hfunc, hargs⟩ := List.forall_mem_cons.mp htexts
      have hcodes := SingleLine.intercalate hcomma (Expr.singleLine_codes args hargs)
      rw [Expr.codes_eq_map] at hcodes
      simp +decide [hfunc, hcodes]
  | define name params =>
      cases hcode
      obtain ⟨hname, hparams⟩ := List.forall_mem_cons.mp htexts
      simp +decide [hname, SingleLine.intercalate hcomma hparams]
  | ifBranch condition | elifBranch condition | whileLoop condition =>
      cases hcode
      simp +decide [condition.singleLine_code htexts]
  | forLoop var iterable =>
      cases hcode
      obtain ⟨hvar, hiterable⟩ := List.forall_mem_cons.mp htexts
      simp +decide [hvar, iterable.singleLine_code hiterable]
  -- the name may be replaced by one of the settings
  | exceptBlock exception? =>
      cases exception? with
      | none =>
          cases hcode
          decide
      | some name =>
          cases hcode
          have hname : SingleLine name := htexts name (List.mem_singleton_self name)
          simp +decide [Settings.singleLine_exceptionName hexceptions hname]
  | global names =>
      cases names with
      | nil => cases hcode
      | cons name others =>
          cases hcode
          exact singleLine_append.mpr ⟨by decide, SingleLine.intercalate hcomma htexts⟩
  | arith op args =>
      -- there is code for three words only
      rcases args with - | ⟨result, - | ⟨left, - | ⟨right, - | ⟨fourth, others⟩⟩⟩⟩
      case cons.cons.cons.nil =>
        cases hcode
        obtain ⟨hresult, hoperands⟩ := List.forall_mem_cons.mp htexts
        obtain ⟨hleft, hright⟩ := List.forall_mem_cons.mp hoperands
        simp +decide [hresult, Code.singleLine_rawOperand hleft, op.singleLine_symbol,
          Code.singleLine_rawOperand (List.forall_mem_singleton.mp hright)]
      all_goals cases hcode
  | elseBranch | breakLoop | continueLoop | tryBlock | finallyBlock | pass =>
      cases hcode
      decide

/-! ## Programs -/

theorem singleLine_helperLines : ∀ line ∈ helperLines, SingleLine line.text := by
  decide

/-- What stands in front of the code of a program are the lines of the helper function, or
nothing. -/
theorem singleLine_preludeOf (settings : Settings) (statements : List Statement) :
    ∀ line ∈ preludeOf settings statements, SingleLine line.text := by
  unfold preludeOf
  split
  · exact singleLine_helperLines
  · simp

theorem preludeOf_of_lines_eq_nil (settings : Settings) {statements : List Statement}
    (hlines : statements.filterMap Statement.line? = []) : preludeOf settings statements = [] := by
  have hnone : statements.any Statement.isIndexSet = false := by
    rw [List.any_eq_false]
    intro statement hmem
    have hline := List.filterMap_eq_nil_iff.mp hlines statement hmem
    cases statement with
    | line content => cases hline
    | _ => simp [Statement.isIndexSet]
  simp [preludeOf, hnone]

theorem forall_singleLine_of_forall₂ {settings : Settings}
    (hexceptions : ∀ entry ∈ settings.exceptionNames.entries, SingleLine entry.2)
    {contents : List Line} {lines : List CodeLine}
    (hcodes : List.Forall₂ (fun content line => content.action.code settings = .ok line.text)
      contents lines)
    (htexts : ∀ content ∈ contents, ∀ text ∈ content.action.texts, SingleLine text) :
    ∀ line ∈ lines, SingleLine line.text := by
  induction hcodes with
  | nil => simp
  | cons hcode hrest ih =>
      obtain ⟨hcontent, hothers⟩ := List.forall_mem_cons.mp htexts
      exact List.forall_mem_cons.mpr
        ⟨Action.singleLine_code hexceptions hcontent hcode, ih hothers⟩

/-- The texts of a parsed program have no line breaks. -/
theorem singleLine_texts_of_parse {source : String} {parsed : Parsed}
    (hparse : parse source = .ok parsed) :
    ∀ content ∈ parsed.program.lines, ∀ text ∈ content.action.texts, SingleLine text := by
  intro content hcontent text htext
  refine (onlyOf_texts_of_parse hparse hcontent text htext).imp fun c hc => ?_
  constructor
  · rintro rfl
    exact absurd hc (by decide)
  · rintro rfl
    exact absurd hc (by decide)

/-- Texts are the lines of the code of a program: those of the helper function, where elements are
assigned to through it, and one for each line of the program.  Named blocks, terminators and arrows
have none.  No text contains a line break. -/
structure Program.HasCodeLines (settings : Settings) (program : Program)
    (helpers body : List String) : Prop where
  helpers_eq : helpers =
    if settings.runtimeHelpers && program.statements.any Statement.isIndexSet then
      helperLines.map (·.render settings.indent)
    else []
  forall₂_body : List.Forall₂ (fun content line =>
    ∃ level code, content.action.code settings = .ok code ∧
      line = CodeLine.render settings.indent ⟨level, code⟩) program.lines body
  singleLine : ∀ line ∈ helpers ++ body, SingleLine line

/-- **No line is injected.**  If settings bring in no line break, the code of a source is the lines
of its program joined by line feeds, with at most one more line feed behind them.  Without lines
there is no code. -/
theorem code_of_compile {settings : Settings} {source : String} {compiled : Compiled}
    (hindent : SingleLine settings.indent)
    (hexceptions : ∀ entry ∈ settings.exceptionNames.entries, SingleLine entry.2)
    (hcompile : compile settings source = .ok compiled) :
    ∃ (parsed : Parsed) (helpers body : List String) (text : String),
      parse source = .ok parsed ∧ parsed.program.HasCodeLines settings helpers body ∧
      text = "\n".intercalate (helpers ++ body) ∧
      compiled.code = (if settings.trailingNewline && !text.isEmpty then text ++ "\n" else text) ∧
      (parsed.program.lines = [] → compiled.code = "") := by
  obtain ⟨parsed, code, hparse, hcode, rfl⟩ := compile_eq_ok_iff.mp hcompile
  obtain ⟨hemit, rfl⟩ := code_generate_eq_ok_iff.mp hcode
  have hcodes := forall₂_line_emit hemit
  -- of the lines only the code of their actions matters here, not the levels that they are at
  generalize (emit settings {} parsed.program.statements).lines = lines at hcodes ⊢
  have hprelude := singleLine_preludeOf settings parsed.program.statements
  have hlines := forall_singleLine_of_forall₂ hexceptions hcodes (singleLine_texts_of_parse hparse)
  refine ⟨parsed, (preludeOf settings parsed.program.statements).map (·.render settings.indent),
    lines.map (·.render settings.indent), _, hparse, ⟨?helpers, ?body, ?single⟩, rfl, ?code,
    ?empty⟩
  case helpers =>
    unfold preludeOf
    split <;> rfl
  case body =>
    rw [List.forall₂_map_right_iff]
    exact hcodes.imp fun _ line htext => ⟨line.level, line.text, htext, rfl⟩
  case single =>
    rw [← List.map_append]
    intro text htext
    obtain ⟨line, hline, rfl⟩ := List.mem_map.mp htext
    have htexts := List.forall_mem_append.mpr ⟨hprelude, hlines⟩
    exact CodeLine.singleLine_render hindent (htexts line hline)
  case code => rw [← List.map_append, renderLines]
  case empty =>
    intro hnone
    -- no line of the program, hence no line of code and no helper function
    obtain rfl : lines = [] := by
      rw [← Program.lines, hnone] at hcodes
      exact List.forall₂_nil_left_iff.mp hcodes
    rw [preludeOf_of_lines_eq_nil settings hnone]
    simp [renderLines]

/-- An assignment to an element between a named block and an arrow, with characters between words
that break lines in other languages. -/
theorem code_of_compile_element :
    let settings := { Settings.default with trailingNewline := true }
    let source := "part:\nset x\x0b[ 0 ] \u2028y\na -> b\nend\nprint ``a\u0085b``"
    let code := "\n".intercalate (helperLines.map (·.render "    ") ++
      ["_catapillar_index_set(\x27x\x27, x, 0, \"y\")", "print(\"a b\")"]) ++ "\n"
    ∃ compiled, compile settings source = .ok compiled ∧ compiled.code = code ∧
      ∃ (parsed : Parsed) (helpers body : List String) (text : String),
        parse source = .ok parsed ∧ parsed.program.HasCodeLines settings helpers body ∧
        text = "\n".intercalate (helpers ++ body) ∧
        compiled.code =
          (if settings.trailingNewline && !text.isEmpty then text ++ "\n" else text) ∧
        (parsed.program.lines = [] → compiled.code = "") := by
  intro settings source code
  have hcode : (compile settings source).toOption.map Compiled.code = some code := by
    decide +kernel
  cases hcompile : compile settings source with
  | error cause =>
      rw [hcompile] at hcode
      cases hcode
  | ok compiled =>
      rw [hcompile] at hcode
      exact ⟨compiled, rfl, Option.some.inj hcode,
        code_of_compile (by decide) (by decide +kernel) hcompile⟩

end LineScript
