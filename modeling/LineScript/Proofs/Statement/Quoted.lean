import LineScript.Proofs.Code.Literal
import LineScript.Proofs.Statement.Assignment

/-!
# Quoted texts in statements

A text between double backticks is one value, however many words it has: where it is printed,
assigned or returned, the words of the line are put together again before they are read.  A call
reads each of its arguments from one word, so that it only takes a text without blanks as one.

Main statement: such statements have the text as their only value, and a literal of the text in
their code (`comesTo_of_quotable`).

A text is quotable if the words of a line can be put together to it again: white space occurs as
single blanks only, and nothing in it ends the quote or begins a comment.  Then its token is cut out
of the line as it was written (`exprTokens_inBackticks`), and each statement reads that one token by
a reader of its own.  What becomes of it in the code is the same for all of them, a literal in
double quotes, and `decode?_doubleQuoted` says what that means.
-/

namespace LineScript

variable {known : KnownNames} {text : String}

/-! ## Reading a quoted text -/

theorem derives_inBackticks (htext : text ≠ "") :
    Derives (.ofPrinter known) .disjunction .value [inBackticks text] (.str text true) :=
  .disjunction_of_sum (.sum_of_indexed (.word (.quoted htext)))

theorem readWhole_inBackticks (htext : text ≠ "") (context : Context) :
    readWhole known context [inBackticks text] = .ok (some (.str text true)) :=
  readAll_of_readBack (derives_inBackticks htext).readBack context

theorem readExpr_inBackticks (htext : text ≠ "") (context : Context) :
    readExpr known context [inBackticks text] = .ok (.str text true) [] :=
  readExpr_of_readBack (derives_inBackticks htext).readBack context (Phrase.stops_nil _)

/-- The short way for single words does not take quoted texts. -/
theorem printedWord?_of_literal? {word : String} (hliteral : literal? word = some (.str text true))
    (hidentifier : isIdentifier word = false) : printedWord? known word = none := by
  have hnumeric : isNumericWord word = false := by
    by_contra hword
    rw [Bool.not_eq_false] at hword
    rw [literal?_of_isNumericWord hword] at hliteral
    cases hliteral
  -- as one of the constants the word would not be a text
  unfold literal? at hliteral
  split at hliteral
  · cases hliteral
  next htrue =>
    split at hliteral
    · cases hliteral
    next hfalse =>
      split at hliteral
      · cases hliteral
      next hnone => simp [printedWord?, htrue, hfalse, hnone, hnumeric, hidentifier]

theorem printedWord?_inBackticks (htext : text ≠ "") :
    printedWord? known (inBackticks text) = none := by
  refine printedWord?_of_literal? (literal?_quoted htext) ?_
  have hbacktick : '\x60' ∈ (inBackticks text).toList := by simp
  exact isIdentifier_eq_false_of_mem hbacktick (by decide)

theorem exprTokens_inBackticks (hquotable : Quotable text) :
    exprTokens (lineWords [inBackticks text]) = [inBackticks text] :=
  exprTokens_lineWords (List.forall_mem_singleton.mpr (.quoted hquotable))

theorem readPrinted_inBackticks (hquotable : Quotable text) :
    readPrinted known (lineWords [inBackticks text]) = .ok (some (.str text true)) := by
  rw [readPrinted, exprTokens_inBackticks hquotable]
  simp [printedWord?_inBackticks hquotable.ne_empty, readPrintedTokens,
    readExpr_inBackticks hquotable.ne_empty, Except.map]

theorem readValueOrName_inBackticks (hquotable : Quotable text) :
    readValueOrName known (lineWords [inBackticks text]) = .ok (.str text true) := by
  rw [readValueOrName, readWords, exprTokens_inBackticks hquotable,
    readWhole_inBackticks hquotable.ne_empty]

theorem readSet_inBackticks (hquotable : Quotable text) {target : String}
    (htarget : isIdentifier target = true) :
    readSet known (lineWords [target, inBackticks text]) = .ok (.set target (.str text true)) := by
  have htokens : exprTokens (lineWords [target, inBackticks text]) = [target, inBackticks text] :=
    exprTokens_lineWords (List.forall_mem_cons.mpr
      ⟨.of_isIdentifier htarget, List.forall_mem_singleton.mpr (.quoted hquotable)⟩)
  exact readSet_of_printed_value htokens (derives_inBackticks hquotable.ne_empty)
    fun hbracket => absurd (Option.some.inj hbracket) (inBackticks_ne (by decide))

/-- A text without blanks is one word, and so one argument. -/
theorem readCall_inBackticks (hquotable : Quotable text) (hblank : ' ' ∉ text.toList)
    {func : String} (hfunc : isIdentifier func = true) :
    readCall known (lineWords [func, inBackticks text]) = .ok (.call func [.str text true]) := by
  obtain ⟨word, hword⟩ : ∃ word, lineWords [inBackticks text] = [word] := by
    rw [← List.length_eq_one_iff, length_lineWords_inBackticks hquotable,
      List.count_eq_zero_of_not_mem hblank]
  -- the one word is the quoted text, which is read as a value
  have hvalue : readValueOrName known [word] = .ok (.str text true) :=
    hword ▸ readValueOrName_inBackticks hquotable
  rw [lineWords_cons_of_isIdentifier hfunc, hword, readCall, List.mapM_cons, hvalue]
  rfl

theorem length_of_mapM_eq_ok {ε α β : Type} {f : α → Except ε β} {values : List α}
    {results : List β} (hmap : values.mapM f = .ok results) : results.length = values.length := by
  induction values generalizing results with
  | nil =>
      cases hmap
      rfl
  | cons value rest ih =>
      rw [List.mapM_cons] at hmap
      obtain ⟨result, -, hmap⟩ := bind_eq_ok_iff.mp hmap
      obtain ⟨others, hothers, hmap⟩ := bind_eq_ok_iff.mp hmap
      cases hmap
      rw [List.length_cons, List.length_cons, ih hothers]

/-- A call has one argument for each word of a quoted text. -/
theorem length_args_of_readCall (hquotable : Quotable text) {func : String}
    (hfunc : isIdentifier func = true) {act : Action}
    (hread : readCall known (lineWords [func, inBackticks text]) = .ok act) :
    ∃ args, act = .call func args ∧ args.length = text.toList.count ' ' + 1 := by
  rw [lineWords_cons_of_isIdentifier hfunc, readCall] at hread
  obtain ⟨args, hargs, hact⟩ := bind_eq_ok_iff.mp hread
  cases hact
  exact ⟨args, rfl, by rw [length_of_mapM_eq_ok hargs, length_lineWords_inBackticks hquotable]⟩

/-! ## Sources with a quoted text -/

/-- The source is parsed as one line with an action, and its code is a text. -/
def ComesTo (settings : Settings) (source : String) (action : Action) (code : String) : Prop :=
  (∃ parsed content, parse source = .ok parsed ∧ parsed.program.statements = [.line content] ∧
    content.action = action) ∧
  ∃ compiled, compile settings source = .ok compiled ∧
    compiled.code = if settings.trailingNewline then code ++ "\n" else code

theorem comesTo_of_readAction {settings : Settings} {word : String} {action : ActionWord}
    {tokens : List String} (hword : ActionWord.ofSpelling? word = some action) (hne : tokens ≠ [])
    (htokens : ∀ token ∈ tokens, Writable token) {act : Action}
    (hread : readAction .empty action (lineWords tokens) = .ok act) {code : String}
    (hcode : act.code settings = .ok code) (hnonempty : code ≠ "")
    (hplain : ∀ container index value, act ≠ .indexSet container index value) :
    ComesTo settings (joinWords (word :: tokens)) act code := by
  obtain ⟨span, hparse⟩ := exists_parse_actionLine_iff hword hne htokens
  obtain ⟨parsed, hparsed, hstatements⟩ := (hparse _).mpr ⟨act, hread, rfl⟩
  refine ⟨⟨parsed, _, hparsed, hstatements, rfl⟩, _,
    compile_of_parse_line hparsed hstatements hcode hnonempty ?_, rfl⟩
  unfold Statement.isIndexSet
  split
  next heq =>
    cases heq
    exact absurd rfl (hplain _ _ _)
  next => rfl

/-- **Quoted texts are atomic.**  A text between double backticks that is printed, assigned or
returned is the only value of its statement, and the code has a literal that means the text.  It is
the only argument of a call if it contains no blank, since each word behind the name of a function
is an argument of its own. -/
theorem comesTo_of_quotable (htext : Quotable text) {target func : String}
    (htarget : isIdentifier target = true) (hfunc : isIdentifier func = true)
    {printWord setWord returnWord callWord : String}
    (hprint : ActionWord.ofSpelling? printWord = some .print)
    (hset : ActionWord.ofSpelling? setWord = some .set)
    (hreturn : ActionWord.ofSpelling? returnWord = some .returnValue)
    (hcall : ActionWord.ofSpelling? callWord = some .call)
    (settings : Settings) (named : String → Option Char) :
    ∃ literal, literal = Code.doubleQuoted text ∧ Literal.decode? named literal = some text ∧
      ComesTo settings (printWord ++ " " ++ inBackticks text)
        (.print (some (.str text true))) ("print(" ++ literal ++ ")") ∧
      ComesTo settings (setWord ++ " " ++ target ++ " " ++ inBackticks text)
        (.set target (.str text true)) (target ++ " = " ++ literal) ∧
      ComesTo settings (returnWord ++ " " ++ inBackticks text)
        (.returnValue (some (.str text true))) ("return " ++ literal) ∧
      (' ' ∉ text.toList →
        ComesTo settings (callWord ++ " " ++ func ++ " " ++ inBackticks text)
          (.call func [.str text true]) (func ++ "(" ++ literal ++ ")")) ∧
      ∀ parsed, parse (callWord ++ " " ++ func ++ " " ++ inBackticks text) = .ok parsed →
        ∃ content args, parsed.program.statements = [.line content] ∧
          content.action = .call func args ∧ args.length = text.toList.count ' ' + 1 := by
  have hquoted : Writable (inBackticks text) := .quoted htext
  have hsingle : ∀ token ∈ [inBackticks text], Writable token :=
    List.forall_mem_singleton.mpr hquoted
  -- a name and the quoted text can be written on a line
  have hpair {name : String} (hname : isIdentifier name = true) :
      ∀ token ∈ [name, inBackticks text], Writable token :=
    List.forall_mem_cons.mpr ⟨.of_isIdentifier hname, hsingle⟩
  refine ⟨_, rfl, Literal.decode?_doubleQuoted named text, ?printed, ?assigned, ?returned, ?called,
    ?arguments⟩
  case printed =>
    refine comesTo_of_readAction hprint (List.cons_ne_nil _ _) hsingle ?_ rfl (by simp) (by simp)
    rw [readAction, readPrinted_inBackticks htext]
    rfl
  case assigned =>
    exact comesTo_of_readAction hset (List.cons_ne_nil _ _) (hpair htarget)
      (readSet_inBackticks htext htarget) rfl (by simp) (by simp)
  case returned =>
    refine comesTo_of_readAction hreturn (List.cons_ne_nil _ _) hsingle ?_ rfl (by simp) (by simp)
    have hwords : (lineWords [inBackticks text]).isEmpty = false := by
      simpa using lineWords_ne_nil (List.cons_ne_nil _ _) hsingle
    rw [readAction, hwords, readValueOrName_inBackticks htext]
    rfl
  case called =>
    intro hblank
    refine comesTo_of_readAction hcall (List.cons_ne_nil _ _) (hpair hfunc)
      (readCall_inBackticks htext hblank hfunc) ?_ (by simp) (by simp)
    rfl
  case arguments =>
    intro parsed hparse
    obtain ⟨span, hiff⟩ := exists_parse_actionLine_iff hcall (List.cons_ne_nil _ _) (hpair hfunc)
    obtain ⟨act, hread, hstatements⟩ := (hiff parsed.program.statements).mp ⟨parsed, hparse, rfl⟩
    -- the arguments are as many as the words, whatever is read of each
    obtain ⟨args, rfl, hlength⟩ := length_args_of_readCall htext hfunc hread
    exact ⟨_, args, hstatements, rfl, hlength⟩

/-- A text of three words that is printed and assigned, and one of a single word as an argument. -/
theorem comesTo_of_quotable_signs :
    Quotable "or (b): \"c\"" ∧ Quotable "[x]:" ∧
      ComesTo .default ("印" ++ " " ++ inBackticks "or (b): \"c\"")
        (.print (some (.str "or (b): \"c\"" true)))
        ("print(" ++ Code.doubleQuoted "or (b): \"c\"" ++ ")") ∧
      ComesTo .default ("set" ++ " " ++ "x" ++ " " ++ inBackticks "or (b): \"c\"")
        (.set "x" (.str "or (b): \"c\"" true))
        ("x" ++ " = " ++ Code.doubleQuoted "or (b): \"c\"") ∧
      ComesTo .default ("call" ++ " " ++ "f" ++ " " ++ inBackticks "[x]:")
        (.call "f" [.str "[x]:" true]) ("f" ++ "(" ++ Code.doubleQuoted "[x]:" ++ ")") := by
  have hwords : Quotable "or (b): \"c\"" :=
    ⟨by decide, by decide, by decide +kernel, by decide, by decide, by decide⟩
  have hword : Quotable "[x]:" :=
    ⟨by decide, by decide, by decide +kernel, by decide, by decide, by decide⟩
  have htarget : isIdentifier "x" = true := by decide +kernel
  have hfunc : isIdentifier "f" = true := by decide +kernel
  have hprint : ActionWord.ofSpelling? "印" = some .print := rfl
  have hset : ActionWord.ofSpelling? "set" = some .set := rfl
  have hreturn : ActionWord.ofSpelling? "return" = some .returnValue := rfl
  have hcall : ActionWord.ofSpelling? "call" = some .call := rfl
  obtain ⟨_, rfl, -, hprinted, hassigned, -⟩ :=
    comesTo_of_quotable hwords htarget hfunc hprint hset hreturn hcall .default fun _ => none
  obtain ⟨_, rfl, -, -, -, -, hcalled, -⟩ :=
    comesTo_of_quotable hword htarget hfunc hprint hset hreturn hcall .default fun _ => none
  exact ⟨hwords, hword, hprinted, hassigned, hcalled (by decide)⟩

/-- A call takes the two words of a quoted text as two arguments. -/
theorem not_comesTo_call_of_blank :
    Quotable "a b" ∧ isIdentifier "f" = true ∧
      (compile .default ("call" ++ " " ++ "f" ++ " " ++ inBackticks "a b")).toOption.map
        Compiled.code = some "f(\"\x60\x60a\", \"b\x60\x60\")" ∧
      ¬ ComesTo .default ("call" ++ " " ++ "f" ++ " " ++ inBackticks "a b")
        (.call "f" [.str "a b" true]) ("f" ++ "(" ++ Code.doubleQuoted "a b" ++ ")") := by
  have hcode : (compile .default ("call" ++ " " ++ "f" ++ " " ++ inBackticks "a b")).toOption.map
      Compiled.code = some "f(\"\x60\x60a\", \"b\x60\x60\")" := by
    decide +kernel
  refine ⟨⟨by decide, by decide, by decide +kernel, by decide, by decide, by decide⟩,
    by decide +kernel, hcode, ?_⟩
  rintro ⟨-, compiled, hcompile, hcompiled⟩
  rw [hcompile, Except.toOption, Option.map_some, Option.some.injEq] at hcode
  rw [hcompiled] at hcode
  exact absurd hcode (by decide +kernel)

end LineScript
