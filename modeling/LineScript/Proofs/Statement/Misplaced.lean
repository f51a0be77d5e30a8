import LineScript.Proofs.Expr.Misplaced
import LineScript.Proofs.Program.FirstFailure
import LineScript.Proofs.Statement.Assignment
import LineScript.Proofs.Text.Markers

/-!
# Misplaced parentheses in statements

Most statements take words that are no expression for a text or a name, or they have a failure of
their own for them.  Misplaced parentheses are the one failure of an expression that none of them
passes over.  Main statement: a line whose value has misplaced parentheses ends its program with
this failure, which has the span of the line (`readProgram_of_misplaces`).

## Strategy

What a statement takes for its value stands in different places among its arguments, and `HasValue`
lists them: all arguments, those without a colon behind them, those behind the word of a loop, or
those behind the target of an assignment.  For each place the readers on the way from the action to
the expression pass the failure on (`readAction_of_misplaces`), and in front of the expression there
is nothing that could fail before.

That the line has no arrow need not be asked for: a marker among its words would show among the
tokens of the value (`ofMarker?_of_exprTokens`).  Quoted texts are the exception, since a word of
one may look like a marker, and the reader would take it for an arrow.
-/

namespace LineScript

variable {known : KnownNames} {context : Context} {tokens tokens' args words : List String}
  {token word : String} {expr : Expr} {action : ActionWord}

/-! ## Tokens -/

section Tokens

variable (hderives : Derives (.ofPrinter known) .disjunction context tokens expr)
  (hmisplaces : Misplaces known tokens tokens')

include hderives hmisplaces

theorem isExprToken_of_misplaces : ∀ token ∈ tokens', IsExprToken known token := by
  have hround : "(" ∈ exprSigns ∧ ")" ∈ exprSigns := by decide
  have htokens := hderives.isExprToken
  obtain ⟨front, word, _, back, -, ⟨hinside, -⟩, rfl, rfl⟩ := hmisplaces.exists_eq
  simp only [List.forall_mem_append] at htokens ⊢
  exact ⟨⟨htokens.1.1, forall_isExprToken_enclosed hround.1 hround.2 hinside.isExprToken⟩,
    htokens.2⟩

theorem unmarked_of_misplaces (hquoted : ∀ text, inBackticks text ∈ tokens' → Unmarked text) :
    ∀ token ∈ tokens', Unmarked token := by
  intro token htoken
  refine (isExprToken_of_misplaces hderives hmisplaces token htoken).unmarked ?_
  rintro text rfl
  exact hquoted text htoken

end Tokens

/-- Misplaced parentheses are two tokens, with something between them. -/
theorem Misplaces.exists_three (hmisplaces : Misplaces known tokens tokens') :
    ∃ first second third rest, tokens' = first :: second :: third :: rest := by
  obtain ⟨front, -, _, back, -, ⟨hinside, -⟩, -, rfl⟩ := hmisplaces.exists_eq
  obtain ⟨start, more, rfl⟩ := List.exists_cons_of_ne_nil hinside.ne_nil
  obtain _ | ⟨first, _ | ⟨second, _ | ⟨third, front⟩⟩⟩ := front
  · cases more <;> exact ⟨_, _, _, _, rfl⟩
  · exact ⟨_, _, _, _, rfl⟩
  · exact ⟨_, _, _, _, rfl⟩
  · exact ⟨_, _, _, _, rfl⟩

/-! ## Values -/

section Values

variable (hderives : Derives (.ofPrinter known) .disjunction context tokens expr)
  (hmisplaces : Misplaces known tokens tokens')

include hderives hmisplaces

theorem readWords_of_misplaces (hwords : exprTokens words = tokens') (context' : Context) :
    readWords known context' words = .error .misplacedParentheses := by
  rw [readWords, hwords]
  exact (readExpr_of_misplaces hderives hmisplaces context').2

theorem readValueOrName_of_misplaces (hwords : exprTokens words = tokens') :
    readValueOrName known words = .error (.expression .misplacedParentheses) := by
  rw [readValueOrName, readWords_of_misplaces hderives hmisplaces hwords]

theorem readCondition_of_misplaces (hargs : exprTokens (stripTrailingColon args) = tokens') :
    readCondition known args = .error (.expression .misplacedParentheses) := by
  have hne : stripTrailingColon args ≠ [] :=
    ne_nil_of_exprTokens (hargs ▸ hderives.ne_nil_of_misplaces hmisplaces)
  have hempty : (stripTrailingColon args).isEmpty = false := List.isEmpty_eq_false_iff.mpr hne
  simp only [readCondition, hempty, Bool.false_eq_true, if_false,
    readWords_of_misplaces hderives hmisplaces hargs]

theorem readPrinted_of_misplaces (hargs : exprTokens args = tokens') :
    readPrinted known args = .error (.expression .misplacedParentheses) := by
  obtain ⟨⟨after, hread⟩, -⟩ := readExpr_of_misplaces hderives hmisplaces .value
  obtain ⟨first, second, third, rest, rfl⟩ := hmisplaces.exists_three
  simp only [readPrinted, hargs, readPrintedTokens, hread]
  rfl

theorem readAssigned_of_misplaces :
    readAssigned known tokens' = .error (.expression .misplacedParentheses) := by
  have hwhole := (readExpr_of_misplaces hderives hmisplaces .value).2
  have harith : ∀ token ∈ tokens', arithOp? token = none := fun token htoken =>
    (isExprToken_of_misplaces hderives hmisplaces token htoken).arithOp?_eq_none
  have hne := hderives.ne_nil_of_misplaces hmisplaces
  unfold readAssigned
  rw [hwhole]
  extract_lets plain
  split
  · exact absurd rfl hne
  · rw [harith _ List.mem_cons_self]
  · rfl

theorem readSet_of_misplaces {name : String} (hargs : exprTokens args = name :: tokens')
    (hbracket : tokens'.head? ≠ some "[") :
    readSet known args = .error (.expression .misplacedParentheses) := by
  have hread := readAssigned_of_misplaces hderives hmisplaces
  obtain ⟨first, second, third, rest, rfl⟩ := hmisplaces.exists_three
  unfold readSet
  rw [hargs]
  simp only [hread]
  split
  next heq =>
    cases heq
    exact absurd rfl hbracket
  next => rfl

end Values

/-! ## Actions -/

/-- The tokens are those of the value among the arguments of an action: all arguments of what is
printed or returned, a condition or an iterable without a colon at its end, and what stands behind
the target of an assignment, if that is no bracket. -/
inductive HasValue : ActionWord → List String → List String → Prop
  | printed {args tokens : List String} (htokens : exprTokens args = tokens) :
      HasValue .print args tokens
  | returned {args tokens : List String} (htokens : exprTokens args = tokens) :
      HasValue .returnValue args tokens
  | condition {action : ActionWord} {args tokens : List String}
      (haction : action ∈ [.ifBranch, .elifBranch, .whileLoop])
      (htokens : exprTokens (stripTrailingColon args) = tokens) : HasValue action args tokens
  | iterable {var inWord : String} {words tokens : List String}
      (hvar : ArrowDirection.ofMarker? var = none) (hin : isInWord inWord = true)
      (htokens : exprTokens (stripTrailingColon words) = tokens) :
      HasValue .forLoop (var :: inWord :: words) tokens
  | assigned {name : String} {args tokens : List String} (hname : Unmarked name)
      (htokens : exprTokens args = name :: tokens) (hbracket : tokens.head? ≠ some "[") :
      HasValue .set args tokens

theorem readAction_of_misplaces
    (hderives : Derives (.ofPrinter known) .disjunction context tokens expr)
    (hmisplaces : Misplaces known tokens tokens') (hvalue : HasValue action args tokens') :
    readAction known action args = .error (.expression .misplacedParentheses) := by
  have hne := hderives.ne_nil_of_misplaces hmisplaces
  cases hvalue with
  | printed htokens =>
      rw [readAction, readPrinted_of_misplaces hderives hmisplaces htokens]
      rfl
  | returned htokens =>
      have hempty : args.isEmpty = false :=
        List.isEmpty_eq_false_iff.mpr (ne_nil_of_exprTokens (htokens ▸ hne))
      simp only [readAction, hempty, Bool.false_eq_true, if_false,
        readValueOrName_of_misplaces hderives hmisplaces htokens]
      rfl
  | condition haction htokens =>
      have hcondition := readCondition_of_misplaces hderives hmisplaces htokens
      simp only [List.mem_cons, List.not_mem_nil, or_false] at haction
      rcases haction with rfl | rfl | rfl
      all_goals
        rw [readAction, hcondition]
        rfl
  | @iterable var inWord words _ hvar hin htokens =>
      -- the iterable has tokens, and so has words
      have hstripped : stripTrailingColon words ≠ [] := ne_nil_of_exprTokens (htokens ▸ hne)
      have hempty : (stripTrailingColon words).isEmpty = false :=
        List.isEmpty_eq_false_iff.mpr hstripped
      have hread := readValueOrName_of_misplaces hderives hmisplaces htokens
      cases words with
      | nil => exact absurd rfl hstripped
      | cons first rest =>
          simp only [readAction, readFor, hin, if_true, hempty, Bool.false_eq_true, if_false, hread]
          rfl
  | assigned hname htokens hbracket =>
      exact readSet_of_misplaces hderives hmisplaces htokens hbracket

/-! ## Arrows -/

/-- What the colon at the end of a line is taken from is not the marker of an arrow. -/
theorem ofMarker?_of_stripTrailingColon
    (hwords : ∀ word ∈ stripTrailingColon words, ArrowDirection.ofMarker? word = none) :
    ∀ word ∈ words, ArrowDirection.ofMarker? word = none := by
  unfold stripTrailingColon at hwords
  split at hwords
  next => exact hwords
  next last hlast =>
    obtain ⟨ending, hending, hcolon⟩ := Option.bind_eq_some_iff.mp hlast
    have hfront : ∀ word ∈ words.dropLast, ArrowDirection.ofMarker? word = none := by
      split at hwords
      · exact hwords
      · exact (List.forall_mem_append.mp hwords).1
    -- the last word may have had a colon, and no marker has one
    have hmarker : ArrowDirection.ofMarker? ending = none := by
      cases hmarker : ArrowDirection.ofMarker? ending with
      | none => rfl
      | some direction =>
          have hnone : withoutColon? "->" = none ∧ withoutColon? "<-" = none := by decide
          unfold ArrowDirection.ofMarker? at hmarker
          split at hmarker
          · rw [hnone.1] at hcolon
            cases hcolon
          · rw [hnone.2] at hcolon
            cases hcolon
          · cases hmarker
    rw [← List.dropLast_append_getLast? ending hending]
    exact List.forall_mem_append.mpr ⟨hfront, List.forall_mem_singleton.mpr hmarker⟩

/-- Without a marker in its value a line has none. -/
theorem HasValue.ofMarker?_eq_none (hvalue : HasValue action args tokens)
    (htokens : ∀ token ∈ tokens, Unmarked token) :
    ∀ word ∈ args, ArrowDirection.ofMarker? word = none := by
  cases hvalue with
  | printed hargs | returned hargs =>
      subst hargs
      exact ofMarker?_of_exprTokens htokens
  | condition haction hargs =>
      subst hargs
      exact ofMarker?_of_stripTrailingColon (ofMarker?_of_exprTokens htokens)
  | @iterable var inWord words _ hvar hin hargs =>
      subst hargs
      -- the word in front of an iterable is one of three, none of them a marker
      have hinWord : ArrowDirection.ofMarker? inWord = none := by
        obtain rfl | rfl | rfl : inWord = "in" ∨ inWord = "在" ∨ inWord = "中" := by
          simpa [isInWord] using hin
        all_goals rfl
      exact List.forall_mem_cons.mpr ⟨hvar, List.forall_mem_cons.mpr
        ⟨hinWord, ofMarker?_of_stripTrailingColon (ofMarker?_of_exprTokens htokens)⟩⟩
  | assigned hname hargs hbracket =>
      refine ofMarker?_of_exprTokens ?_
      rw [hargs]
      exact List.forall_mem_cons.mpr ⟨hname, htokens⟩

/-! ## Lines -/

theorem HasValue.args_ne_nil (hvalue : HasValue action args tokens) (hne : tokens ≠ []) :
    args ≠ [] := by
  cases hvalue with
  | printed hargs | returned hargs => exact ne_nil_of_exprTokens (hargs ▸ hne)
  | condition haction hargs =>
      rintro rfl
      exact ne_nil_of_exprTokens (hargs ▸ hne) rfl
  | iterable => exact List.cons_ne_nil _ _
  | assigned hname hargs => exact ne_nil_of_exprTokens (hargs ▸ List.cons_ne_nil _ _)

/-- **Misplaced parentheses are always reported.**  In a printed expression let one word, at any
depth, be replaced by parentheses around a printed expression that is no combination.  Behind lines
that are read, let a line have these tokens as its value, and let none of its quoted texts have the
marker of an arrow.  Then the program fails with misplaced parentheses at the span of this line. -/
theorem readProgram_of_misplaces {before after : List LineToken} {token : LineToken}
    {lines : List (LineToken × Statement)} (hbefore : readLines .empty before = .ok lines)
    (haction : ActionWord.ofSpelling? token.action = some action)
    (hvalue : HasValue action token.args tokens')
    (hderives : Derives (.ofPrinter (namesAfter (lines.map Prod.snd))) .disjunction context tokens
      expr)
    (hmisplaces : Misplaces (namesAfter (lines.map Prod.snd)) tokens tokens')
    (hquoted : ∀ text, inBackticks text ∈ tokens' → Unmarked text)
    (diagnostics : List Diagnostic) :
    readProgram (before ++ token :: after) diagnostics = .error (.grouping token.span) := by
  have hne := hderives.ne_nil_of_misplaces hmisplaces
  have hmarker : ∀ word ∈ token.args, ArrowDirection.ofMarker? word = none :=
    hvalue.ofMarker?_eq_none (unmarked_of_misplaces hderives hmisplaces hquoted)
  -- the line is an action with arguments, and its value fails
  have hstatement : readStatement (namesAfter (lines.map Prod.snd)) token =
      .error (.expression .misplacedParentheses) := by
    rw [readStatement_of_ofSpelling? haction (hvalue.args_ne_nil hne) hmarker,
      readAction_of_misplaces hderives hmisplaces hvalue]
    rfl
  have hlines : readLines .empty (before ++ token :: after) = .error (.grouping token.span) :=
    readLines_eq_error_iff.mpr ⟨before, token, after, lines, _, rfl, hbefore, hstatement, rfl⟩
  rw [readProgram, hlines]
  rfl

/-- A quoted text in parentheses, in a list in a group: in a condition with a colon behind it, and
in an assignment before another line. -/
theorem readProgram_of_misplaces_nested :
    parse "set a 1\nif ( a + [ ( \x60\x60b c\x60\x60 ) ] ) * 2:" =
        .error (.grouping ⟨8, 39⟩) ∧
      parse "set a 1\nset x ( a + [ ( \x60\x60b c\x60\x60 ) ] ) * 2\nend" =
        .error (.grouping ⟨8, 41⟩) := by
  let first : LineToken := ⟨"set", ["a", "1"], .continued, none, 1, ⟨0, 7⟩⟩
  have hcontains : (readLines .empty [first]).toOption.map
      (fun lines => (namesAfter (lines.map Prod.snd)).contains "a") = some true := by
    decide +kernel
  obtain ⟨lines, hlines, hknown⟩ : ∃ lines, readLines .empty [first] = .ok lines ∧
      (namesAfter (lines.map Prod.snd)).contains "a" = true := by
    cases hread : readLines .empty [first] with
    | error cause =>
        rw [hread] at hcontains
        cases hcontains
    | ok lines =>
        rw [hread] at hcontains
        exact ⟨lines, rfl, Option.some.inj hcontains⟩
  let known : KnownNames := namesAfter (lines.map Prod.snd)
  have hprinted : PrintedAs known "a" (.ident "a") :=
    .ident (by decide) hknown (by decide)
  have hname : Derives (.ofPrinter known) .indexed .name ["a"] (.ident "a") := .word hprinted
  have hlist : Derives (.ofPrinter known) .indexed .name ["[", "a", "]"] (.list [.ident "a"]) :=
    .list (.lastElement (.disjunction_of_sum (.sum_of_indexed (.word hprinted))))
  have hsum : Derives (.ofPrinter known) .disjunction .name (["a"] ++ "+" :: ["[", "a", "]"])
      (.binary .add (.ident "a") (.list [.ident "a"])) :=
    .disjunction_of_sum
      (.binary rfl rfl hname.sum_of_indexed (.loosen rfl (.loosen rfl hlist)))
  have hnumber : Derives (.ofPrinter known) .signed .value ["2"] (.number "2") :=
    .loosen rfl (.word (.number (by decide)))
  have hproduct : Derives (.ofPrinter known) .disjunction .value
      ("(" :: (["a", "+", "[", "a", "]"] ++ [")"]) ++ "*" :: ["2"])
      (.binary .mul (.binary .add (.ident "a") (.list [.ident "a"])) (.number "2")) :=
    .disjunction_of_sum (.loosen rfl
      (.binary rfl rfl (.loosen rfl (.loosen rfl (.group rfl hsum))) hnumber))
  have hquote : Derives (.ofPrinter known) .disjunction .value [inBackticks "b c"]
      (.str "b c" true) :=
    .disjunction_of_sum (.sum_of_indexed (.word (.quoted (by decide))))
  have hgroup : MisplacedGroup known ["(", inBackticks "b c", ")"] :=
    .mk hquote rfl
  have hmisplaces : Misplaces known ["(", "a", "+", "[", "a", "]", ")", "*", "2"]
      ["(", "a", "+", "[", "(", inBackticks "b c", ")", "]", ")", "*", "2"] :=
    .there _ (.there _ (.there _ (.there _ (.here hprinted hgroup _))))
  have hquoted (text : String) (hmem : inBackticks text ∈
      ["(", "a", "+", "[", "(", inBackticks "b c", ")", "]", ")", "*", "2"]) : Unmarked text := by
    simp only [List.mem_cons, List.not_mem_nil, or_false, inBackticks_inj] at hmem
    rcases hmem with h | h | h | h | h | rfl | h | h | h | h | h
    case inr.inr.inr.inr.inr.inl => decide
    all_goals exact absurd h (inBackticks_ne (by decide))
  have hparse {source : String} {token : LineToken} {after : List LineToken} {action : ActionWord}
      (htokens : tokensOf (findings source) = [first] ++ token :: after)
      (haction : ActionWord.ofSpelling? token.action = some action)
      (hvalue : HasValue action token.args
        ["(", "a", "+", "[", "(", inBackticks "b c", ")", "]", ")", "*", "2"]) :
      parse source = .error (.grouping token.span) := by
    rw [parse, htokens]
    exact readProgram_of_misplaces hlines haction hvalue hproduct hmisplaces hquoted _
  let condition : LineToken := ⟨"if", ["(", "a", "+", "[", "(", "\x60\x60b", "c\x60\x60", ")", "]",
    ")", "*", "2:"], .continued, none, 2, ⟨8, 39⟩⟩
  let assignment : LineToken := ⟨"set", ["x", "(", "a", "+", "[", "(", "\x60\x60b", "c\x60\x60",
    ")", "]", ")", "*", "2"], .continued, none, 2, ⟨8, 41⟩⟩
  let ending : LineToken := ⟨"end", [], .continued, none, 3, ⟨42, 45⟩⟩
  constructor
  · have htokens : tokensOf (findings "set a 1\nif ( a + [ ( \x60\x60b c\x60\x60 ) ] ) * 2:") =
        [first, condition] := by decide
    exact hparse htokens rfl (.condition List.mem_cons_self (by decide +kernel))
  · have htokens : tokensOf (findings
        "set a 1\nset x ( a + [ ( \x60\x60b c\x60\x60 ) ] ) * 2\nend") =
        [first, assignment, ending] := by decide
    have hname : Unmarked "x" := by decide
    exact hparse htokens rfl (.assigned hname (by decide +kernel) (by decide))

end LineScript
