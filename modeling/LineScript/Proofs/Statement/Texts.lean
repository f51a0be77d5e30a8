import LineScript.Proofs.Expr.Texts
import LineScript.Proofs.Program.KnownNames
import LineScript.Proofs.Statement.Forms

/-!
# Texts in programs

The texts of an action are its names, its raw words and the texts in its values.  Each reader of
statements puts words together again in its own way: as they are, joined by blanks, without colons
behind them, or cut into tokens.  None of them makes up a character
(`onlyOf_texts_of_readAction`).

Main statement: the only white space in the texts of a program is the blank
(`onlyOf_texts_of_parse`).

## Strategy

What characters are allowed is a parameter up to the last step.  There is one lemma for each reader,
in the order in which they call each other, and each says: if the words consist of allowed
characters only, so do the texts of what is read.  Readers that join words need that the blank is
allowed.

An assignment can be read in several ways.  `readSet_cases` lists them once, with what the tokens
look like in each, and later files use the list too.

The words of a line are free of white space because that is what they were cut at
(`onlyOf_words_of_mem_findings`).  So the allowed characters are all others and the blank.
-/

namespace LineScript

/-- The texts in an action. -/
def Action.texts : Action → List String
  | .set name value => name :: value.texts
  | .indexSet container index value => container :: (index.texts ++ value.texts)
  | .print value | .returnValue value => value.elim [] Expr.texts
  | .call func args => func :: Expr.textsOfAll args
  | .define name params => name :: params
  | .ifBranch condition | .elifBranch condition | .whileLoop condition => condition.texts
  | .forLoop var iterable => var :: iterable.texts
  | .exceptBlock exception => exception.toList
  | .global names => names
  | .arith _ args => args
  | .elseBranch | .breakLoop | .continueLoop | .tryBlock | .finallyBlock | .pass => []

variable {allowed : Char → Prop} {known : KnownNames} {words : List String} {expr : Expr}
  {action : Action}

/-! ## Words without colons -/

theorem OnlyOf.withoutColon? {word rest : String} (hword : OnlyOf allowed word)
    (hrest : withoutColon? word = some rest) : OnlyOf allowed rest := by
  unfold LineScript.withoutColon? at hrest
  split at hrest
  · cases hrest
    intro c hc
    rw [String.toList_ofList] at hc
    exact hword c ((List.dropLast_sublist _).mem hc)
  · cases hrest

theorem OnlyOf.withoutColons {word : String} (hword : OnlyOf allowed word) :
    OnlyOf allowed (withoutColons word) := by
  intro c hc
  rw [LineScript.withoutColons, String.toList_ofList, List.mem_reverse] at hc
  exact hword c (List.mem_reverse.mp ((List.dropWhile_sublist _).mem hc))

theorem onlyOf_stripTrailingColon (hwords : ∀ word ∈ words, OnlyOf allowed word) :
    ∀ word ∈ stripTrailingColon words, OnlyOf allowed word := by
  unfold stripTrailingColon
  split
  · exact hwords
  next last hlast =>
    -- only the last word changes, and loses its colon
    have hfront : ∀ word ∈ words.dropLast, OnlyOf allowed word :=
      fun word hword => hwords word ((List.dropLast_sublist words).mem hword)
    split
    · exact hfront
    · obtain ⟨word, hword, hcolon⟩ := Option.bind_eq_some_iff.mp hlast
      have hmem : word ∈ words := List.mem_of_getLast? hword
      exact List.forall_mem_append.mpr
        ⟨hfront, List.forall_mem_singleton.mpr ((hwords word hmem).withoutColon? hcolon)⟩

/-! ## Values -/

theorem texts_resolveWord (known : KnownNames) (context : Context) (word : String) :
    (resolveWord known context word).texts = [word] := by
  unfold resolveWord
  split <;> rfl

theorem onlyOf_texts_of_readToken {token : String} (htoken : OnlyOf allowed token)
    (hread : readToken known token = .ok expr) : ∀ text ∈ expr.texts, OnlyOf allowed text := by
  unfold readToken at hread
  split at hread
  next found rest hfound =>
    cases hread
    exact onlyOf_texts_of_readExpr hfound (List.forall_mem_singleton.mpr htoken)
  next => cases hread

theorem onlyOf_texts_of_readWords {context : Context} (hblank : allowed ' ')
    (hwords : ∀ word ∈ words, OnlyOf allowed word)
    (hread : readWords known context words = .ok (some expr)) :
    ∀ text ∈ expr.texts, OnlyOf allowed text :=
  onlyOf_texts_of_readWhole hread (OnlyOf.exprTokens hblank hwords)

theorem onlyOf_texts_of_readValueOrName (hblank : allowed ' ')
    (hwords : ∀ word ∈ words, OnlyOf allowed word)
    (hread : readValueOrName known words = .ok expr) :
    ∀ text ∈ expr.texts, OnlyOf allowed text := by
  unfold readValueOrName at hread
  split at hread
  next => cases hread
  next found hfound =>
    cases hread
    exact onlyOf_texts_of_readWords hblank hwords hfound
  next =>
    cases hread
    simpa [Expr.texts] using OnlyOf.joinWords hblank hwords

theorem onlyOf_texts_of_readCondition (hblank : allowed ' ')
    (hwords : ∀ word ∈ words, OnlyOf allowed word) (hread : readCondition known words = .ok expr) :
    ∀ text ∈ expr.texts, OnlyOf allowed text := by
  unfold readCondition at hread
  simp only at hread
  split at hread
  · cases hread
  · split at hread
    next => cases hread
    next found hfound =>
      cases hread
      exact onlyOf_texts_of_readWords hblank (onlyOf_stripTrailingColon hwords) hfound
    next => cases hread

theorem onlyOf_texts_of_readAssigned {tokens : List String} (hblank : allowed ' ')
    (htokens : ∀ token ∈ tokens, OnlyOf allowed token)
    (hread : readAssigned known tokens = .ok expr) :
    ∀ text ∈ expr.texts, OnlyOf allowed text := by
  unfold readAssigned at hread
  extract_lets plain at hread
  -- tokens that are no arithmetic are read the same way wherever this is found out
  have hplain (h : plain = .ok expr) : ∀ text ∈ expr.texts, OnlyOf allowed text := by
    unfold plain at h
    split at h
    next => cases h
    next found hfound =>
      cases h
      exact onlyOf_texts_of_readWhole hfound htokens
    next =>
      cases h
      simpa [Expr.texts] using OnlyOf.joinWords hblank htokens
  clear_value plain
  split at hread
  · cases hread
  next word left right =>
    split at hread
    · exact hplain hread
    · obtain ⟨leftExpr, hleft, hread⟩ := bind_eq_ok_iff.mp hread
      obtain ⟨rightExpr, hright, hread⟩ := bind_eq_ok_iff.mp hread
      cases hread
      simp only [List.forall_mem_cons] at htokens
      exact List.forall_mem_append.mpr ⟨onlyOf_texts_of_readToken htokens.2.1 hleft,
        onlyOf_texts_of_readToken htokens.2.2.1 hright⟩
  · exact hplain hread

theorem onlyOf_texts_of_printedWord? {token : String} (htoken : OnlyOf allowed token)
    (hread : printedWord? known token = some expr) : ∀ text ∈ expr.texts, OnlyOf allowed text := by
  unfold printedWord? at hread
  repeat' split at hread
  all_goals cases hread
  all_goals simp [Expr.texts, texts_resolveWord, htoken]

theorem onlyOf_texts_of_readPrintedTokens {tokens : List String} {text : String}
    (htokens : ∀ token ∈ tokens, OnlyOf allowed token) (htext : OnlyOf allowed text)
    (hread : readPrintedTokens known tokens text = .ok expr) :
    ∀ text ∈ expr.texts, OnlyOf allowed text := by
  unfold readPrintedTokens at hread
  split at hread
  next found hfound =>
    cases hread
    exact onlyOf_texts_of_readExpr hfound htokens
  next => cases hread
  next =>
    cases hread
    simpa [Expr.texts] using htext

theorem onlyOf_texts_of_readPrinted {expr? : Option Expr} (hblank : allowed ' ')
    (hwords : ∀ word ∈ words, OnlyOf allowed word) (hread : readPrinted known words = .ok expr?) :
    ∀ text ∈ expr?.elim [] Expr.texts, OnlyOf allowed text := by
  have htokens := OnlyOf.exprTokens hblank hwords
  -- the long way, for one token or for any number of them
  have hprinted {tokens : List String} (htokens : ∀ token ∈ tokens, OnlyOf allowed token)
      (h : (readPrintedTokens known tokens (joinWords words)).map some = .ok expr?) :
      ∀ text ∈ expr?.elim [] Expr.texts, OnlyOf allowed text := by
    obtain ⟨found, hfound, rfl⟩ := map_eq_ok_iff.mp h
    exact onlyOf_texts_of_readPrintedTokens htokens (OnlyOf.joinWords hblank hwords) hfound
  unfold readPrinted at hread
  split at hread
  · cases hread
    simp
  next token heq =>
    rw [heq] at htokens
    split at hread
    next found hfound =>
      cases hread
      exact onlyOf_texts_of_printedWord? (List.forall_mem_singleton.mp htokens) hfound
    next => exact hprinted htokens hread
  · exact hprinted htokens hread

/-! ## Actions -/

/-- An assignment has no value, or a value behind its target, or one behind an index. -/
theorem readSet_cases (hread : readSet known words = .ok action) :
    (∃ name, exprTokens words = [name] ∧ action = .set name .none) ∨
    (∃ name value expr, exprTokens words = name :: value ∧
      readAssigned known value = .ok expr ∧ action = .set name expr) ∨
    ∃ name inside value index expr, exprTokens words = name :: "[" :: (inside ++ "]" :: value) ∧
      readExpr known .value inside = .ok index [] ∧ readAssigned known value = .ok expr ∧
      action = .indexSet name index expr := by
  unfold readSet at hread
  extract_lets tokens plain at hread
  change (∃ name, tokens = [name] ∧ _) ∨ (∃ name value expr, tokens = name :: value ∧ _ ∧ _) ∨
    ∃ name inside value index expr, tokens = name :: "[" :: (inside ++ "]" :: value) ∧ _ ∧ _ ∧ _
  clear_value tokens
  -- without an index that is closed and followed by a value, the first token is the target
  have hplain (h : plain = .ok action) : (∃ name, tokens = [name] ∧ action = .set name .none) ∨
      ∃ name value expr, tokens = name :: value ∧ readAssigned known value = .ok expr ∧
        action = .set name expr := by
    unfold plain at h
    split at h
    next => cases h
    next name =>
      cases h
      exact .inl ⟨name, rfl, rfl⟩
    next name value _ =>
      obtain ⟨expr, hexpr, h⟩ := bind_eq_ok_iff.mp h
      cases h
      exact .inr ⟨name, value, expr, rfl, hexpr, rfl⟩
  clear_value plain
  split at hread
  next name rest =>
    split at hread
    next inside value hsplit =>
      split at hread
      · exact or_assoc.mp (.inl (hplain hread))
      · split at hread
        next => cases hread
        next index hindex =>
          obtain ⟨expr, hexpr, hread⟩ := bind_eq_ok_iff.mp hread
          cases hread
          refine .inr (.inr ⟨name, inside, value, index, expr, ?_, hindex, hexpr, rfl⟩)
          rw [append_of_splitAtClosing hsplit]
        next => cases hread
    next => exact or_assoc.mp (.inl (hplain hread))
  next => exact or_assoc.mp (.inl (hplain hread))

theorem onlyOf_texts_of_readSet (hblank : allowed ' ')
    (hwords : ∀ word ∈ words, OnlyOf allowed word) (hread : readSet known words = .ok action) :
    ∀ text ∈ action.texts, OnlyOf allowed text := by
  have htokens := OnlyOf.exprTokens hblank hwords
  rcases readSet_cases hread with
    ⟨name, heq, rfl⟩ | ⟨name, value, expr, heq, hexpr, rfl⟩ |
    ⟨name, inside, value, index, expr, heq, hindex, hexpr, rfl⟩
  · rw [heq] at htokens
    simpa [Action.texts, Expr.texts] using htokens
  · rw [heq] at htokens
    obtain ⟨hname, hvalue⟩ := List.forall_mem_cons.mp htokens
    exact List.forall_mem_cons.mpr ⟨hname, onlyOf_texts_of_readAssigned hblank hvalue hexpr⟩
  · rw [heq] at htokens
    -- the container, the index and the value are parts of the tokens
    simp only [List.forall_mem_cons, List.forall_mem_append] at htokens
    obtain ⟨hname, -, hinside, -, hvalue⟩ := htokens
    exact List.forall_mem_cons.mpr ⟨hname, List.forall_mem_append.mpr
      ⟨onlyOf_texts_of_readExpr hindex hinside,
        onlyOf_texts_of_readAssigned hblank hvalue hexpr⟩⟩

theorem onlyOf_texts_of_readFor (hblank : allowed ' ')
    (hwords : ∀ word ∈ words, OnlyOf allowed word) (hread : readFor known words = .ok action) :
    ∀ text ∈ action.texts, OnlyOf allowed text := by
  unfold readFor at hread
  split at hread
  next var inWord first rest =>
    split at hread
    · simp only at hread
      split at hread
      · cases hread
      · obtain ⟨expr, hexpr, hread⟩ := bind_eq_ok_iff.mp hread
        cases hread
        obtain ⟨hvar, hrest⟩ := List.forall_mem_cons.mp hwords
        have hiterable := onlyOf_stripTrailingColon (List.forall_mem_cons.mp hrest).2
        exact List.forall_mem_cons.mpr
          ⟨hvar, onlyOf_texts_of_readValueOrName hblank hiterable hexpr⟩
    · cases hread
  next => cases hread

theorem onlyOf_texts_of_readDefinition (hwords : ∀ word ∈ words, OnlyOf allowed word)
    (hread : readDefinition words = .ok action) : ∀ text ∈ action.texts, OnlyOf allowed text := by
  have hnames : ∀ name ∈ (words.map withoutColons).filter (fun name => !name.isEmpty),
      OnlyOf allowed name := by
    intro name hname
    obtain ⟨word, hword, rfl⟩ := List.mem_map.mp (List.mem_filter.mp hname).1
    exact (hwords word hword).withoutColons
  unfold readDefinition at hread
  split at hread
  next => cases hread
  next name params hfilter =>
    cases hread
    rwa [hfilter] at hnames

theorem onlyOf_texts_of_readArguments {exprs : List Expr} (hblank : allowed ' ')
    (hwords : ∀ word ∈ words, OnlyOf allowed word)
    (hread : words.mapM (fun word => readValueOrName known [word]) = .ok exprs) :
    ∀ text ∈ Expr.textsOfAll exprs, OnlyOf allowed text := by
  induction words generalizing exprs with
  | nil =>
      cases hread
      simp [Expr.textsOfAll]
  | cons word rest ih =>
      rw [List.mapM_cons] at hread
      obtain ⟨expr, hexpr, hread⟩ := bind_eq_ok_iff.mp hread
      obtain ⟨others, hothers, hread⟩ := bind_eq_ok_iff.mp hread
      cases hread
      obtain ⟨hword, hrest⟩ := List.forall_mem_cons.mp hwords
      exact List.forall_mem_append.mpr
        ⟨onlyOf_texts_of_readValueOrName hblank (List.forall_mem_singleton.mpr hword) hexpr,
          ih hrest hothers⟩

theorem onlyOf_texts_of_readCall (hblank : allowed ' ')
    (hwords : ∀ word ∈ words, OnlyOf allowed word) (hread : readCall known words = .ok action) :
    ∀ text ∈ action.texts, OnlyOf allowed text := by
  unfold readCall at hread
  split at hread
  next => cases hread
  next func args =>
    obtain ⟨exprs, hexprs, hread⟩ := bind_eq_ok_iff.mp hread
    cases hread
    obtain ⟨hfunc, hargs⟩ := List.forall_mem_cons.mp hwords
    exact List.forall_mem_cons.mpr ⟨hfunc, onlyOf_texts_of_readArguments hblank hargs hexprs⟩

/-- The texts of an action are made of the characters of the words behind the action word, and of
blanks. -/
theorem onlyOf_texts_of_readAction {word : ActionWord} (hblank : allowed ' ')
    (hwords : ∀ word ∈ words, OnlyOf allowed word)
    (hread : readAction known word words = .ok action) :
    ∀ text ∈ action.texts, OnlyOf allowed text := by
  cases word with
  | set => exact onlyOf_texts_of_readSet hblank hwords hread
  | forLoop => exact onlyOf_texts_of_readFor hblank hwords hread
  | define => exact onlyOf_texts_of_readDefinition hwords hread
  | call => exact onlyOf_texts_of_readCall hblank hwords hread
  | print =>
      obtain ⟨expr?, hexpr, hread⟩ := bind_eq_ok_iff.mp hread
      cases hread
      exact onlyOf_texts_of_readPrinted hblank hwords hexpr
  | ifBranch | elifBranch | whileLoop =>
      obtain ⟨expr, hexpr, hread⟩ := bind_eq_ok_iff.mp hread
      cases hread
      exact onlyOf_texts_of_readCondition hblank hwords hexpr
  | returnValue =>
      rw [readAction] at hread
      split at hread
      · cases hread
        simp [Action.texts]
      · obtain ⟨expr, hexpr, hread⟩ := bind_eq_ok_iff.mp hread
        cases hread
        exact onlyOf_texts_of_readValueOrName hblank hwords hexpr
  -- the name of an exception is the first word without its colon
  | exceptBlock =>
      cases hread
      intro text htext
      rw [Action.texts, Option.mem_toList] at htext
      exact onlyOf_stripTrailingColon hwords text (List.mem_of_mem_head? htext)
  | global | arith op =>
      cases hread
      exact hwords
  | elseBranch | tryBlock | finallyBlock | breakLoop | continueLoop | pass =>
      cases hread
      simp [Action.texts]

/-! ## Lines -/

theorem onlyOf_texts_of_readStatement {token : LineToken} {content : Line} (hblank : allowed ' ')
    (hwords : ∀ word ∈ token.args, OnlyOf allowed word)
    (hread : readStatement known token = .ok (.line content)) :
    ∀ text ∈ content.action.texts, OnlyOf allowed text := by
  cases readStatement_eq_ok_iff.mp hread with
  | @branch name action hend hargs hname hword =>
      -- the branches that have headers of one word have no texts
      have hnone : action.texts = [] := by
        have hthree := ActionWord.eq_of_ofHeader? hword
        cases action with
        | elseBranch | tryBlock | finallyBlock => rfl
        | _ => simp [Action.word] at hthree
      simp [hnone]
  | action hend hedge hheader hword haction =>
      exact onlyOf_texts_of_readAction hblank hwords haction

/-! ## Sources -/

theorem Ornaments.mem_of_mem_content {words : List String} {word : String}
    (hmem : word ∈ (ofWords words).content) : word ∈ words := by
  have hstate (state : LineState) (words : List String)
      (hmem : word ∈ (withState state words).content) : word ∈ words := by
    unfold withState at hmem
    split at hmem
    · exact hmem
    · split at hmem
      · exact List.mem_cons_of_mem _ hmem
      · exact hmem
  unfold ofWords at hmem
  split at hmem
  · exact hmem
  · split at hmem
    · exact List.mem_cons_of_mem _ (hstate _ _ hmem)
    · exact hstate _ _ hmem

/-- Each token is that of a line. -/
theorem exists_line_of_mem_findingsOfLines {comment : Option SourceLine} {lines : List SourceLine}
    {token : LineToken} (hmem : .token token ∈ findingsOfLines comment lines) :
    ∃ line ∈ lines, line.token? = some token := by
  induction lines generalizing comment with
  | nil =>
      cases comment with
      | none => cases hmem
      | some marker => simp [findingsOfLines] at hmem
  | cons line rest ih =>
      -- a token of the lines behind this one
      have hrest {comment : Option SourceLine} (h : .token token ∈ findingsOfLines comment rest) :
          ∃ line' ∈ line :: rest, line'.token? = some token := by
        obtain ⟨line', hline', htoken⟩ := ih h
        exact ⟨line', List.mem_cons_of_mem line hline', htoken⟩
      unfold findingsOfLines at hmem
      split at hmem
      · exact hrest hmem
      · split at hmem
        · exact hrest hmem
        · rcases List.mem_append.mp hmem with hline | h
          · exact ⟨line, List.mem_cons_self, by simpa [SourceLine.findings] using hline⟩
          · exact hrest h

/-- The words of a token contain no white space. -/
theorem onlyOf_words_of_mem_findings {source : String} {token : LineToken}
    (hmem : token ∈ tokensOf (findings source)) :
    ∀ word ∈ token.action :: token.args, OnlyOf (Text.isBlank · = false) word := by
  obtain ⟨finding, hfinding, htoken⟩ := List.mem_filterMap.mp hmem
  cases finding with
  | diagnostic remark => cases htoken
  | token found =>
      cases htoken
      obtain ⟨line, -, hline⟩ := exists_line_of_mem_findingsOfLines hfinding
      unfold SourceLine.token? at hline
      simp only at hline
      split at hline
      · cases hline
      next action args hcontent =>
        cases hline
        intro word hword c hc
        -- action and arguments are words of the line, behind its ornaments
        have hofLine : word ∈ line.words := Ornaments.mem_of_mem_content (hcontent ▸ hword)
        obtain ⟨chars, hchars, rfl⟩ := List.mem_map.mp hofLine
        rw [String.toList_ofList] at hc
        exact (Text.mem_of_mem_words hchars hc).2

theorem mem_of_readLines {known : KnownNames} {tokens : List LineToken}
    {lines : List (LineToken × Statement)} (hread : readLines known tokens = .ok lines)
    {token : LineToken} {statement : Statement} (hmem : (token, statement) ∈ lines) :
    token ∈ tokens ∧ ∃ known', readStatement known' token = .ok statement := by
  obtain ⟨rfl, heach⟩ := readLines_eq_ok_iff.mp hread
  obtain ⟨i, hget⟩ := List.mem_iff_getElem?.mp hmem
  exact ⟨List.mem_map.mpr ⟨_, hmem, rfl⟩, _, heach i token statement hget⟩

/-- **White space in programs.**  Whatever white space a source contains, the texts of its program
contain no other than blanks. -/
theorem onlyOf_texts_of_parse {source : String} {parsed : Parsed}
    (hparse : parse source = .ok parsed) {content : Line}
    (hcontent : content ∈ parsed.program.lines) :
    ∀ text ∈ content.action.texts, OnlyOf (fun c => Text.isBlank c = false ∨ c = ' ') text := by
  obtain ⟨lines, hlines, rfl⟩ := parse_eq_ok_iff.mp hparse
  obtain ⟨statement, hstatement, hline⟩ := List.mem_filterMap.mp hcontent
  obtain rfl : statement = .line content := by
    cases statement with
    | line other =>
        cases hline
        rfl
    | _ => cases hline
  rw [statements_programOf] at hstatement
  obtain ⟨⟨token, _⟩, hmem, rfl⟩ := List.mem_map.mp hstatement
  obtain ⟨htoken, known, hread⟩ := mem_of_readLines hlines hmem
  refine onlyOf_texts_of_readStatement (.inr rfl) (fun word hword => ?_) hread
  exact (onlyOf_words_of_mem_findings htoken word (List.mem_cons_of_mem _ hword)).imp
    fun _ => .inl

end LineScript
