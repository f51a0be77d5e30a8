import LineScript.Proofs.Expr.RoundTrip
import LineScript.Proofs.Expr.Written
import LineScript.Proofs.Program.ActionLine

/-!
# Assignments of printed expressions

What stands behind the target of an assignment is an index in brackets and a value, or only a value.
A value may begin with a bracket itself, so that only what comes behind the bracket which closes
this one tells the two apart.

Main statement: behind a source that lines can be added to, printed assignments of both forms are
parsed as what was printed (`goesOn_printed_assignment`).

## Strategy

* **An index and a value.**  In a printed index all brackets match, and the search for the closing
  one ends behind the index (`Derives.matched`).  What is left behind it is the value.
* **Only a value.**  If it begins with a bracket, the reader looks for the closing one all the same.
  The value is taken as a whole exactly if nothing comes behind that bracket (`ClosesAtEnd`); this
  is said by counting brackets in every part of the value from its beginning, and the count at the
  closing bracket is what `count_of_splitAtClosing` computes.
* **Written on a line.**  The tokens are cut out of the line again as they were
  (`exprTokens_lineWords`), and `Continuable.goesOn` does the rest.

An assigned value has one form more, an operation and two operands.  A printed expression is never
taken for it, since no token of one is the word of an operation.
-/

namespace LineScript

variable {known : KnownNames} {context : Context} {tokens value : List String} {token word : String}
  {expr valueExpr : Expr}

/-! ## Values -/

theorem ActionWord.literal?_of_ofSpelling? {action : ActionWord}
    (hword : ofSpelling? word = some action) : literal? word = none := by
  unfold ofSpelling? at hword
  split at hword
  case h_45 => cases hword
  all_goals decide +kernel

theorem PrintedAs.ofSpelling?_eq_none (hprinted : PrintedAs known word expr) :
    ActionWord.ofSpelling? word = none := by
  cases hspelling : ActionWord.ofSpelling? word with
  | none => rfl
  | some action =>
      have hkeyword : isKeyword word = true := by
        simp [isKeyword, hspelling]
      exact absurd rfl
        (hprinted.ne (ActionWord.literal?_of_ofSpelling? hspelling) (.inr hkeyword))

/-- No token of an expression is an operation in front of its operands. -/
theorem IsExprToken.arithOp?_eq_none (htoken : IsExprToken known token) :
    arithOp? token = none := by
  have hspelling : ActionWord.ofSpelling? token = none := by
    rcases htoken with hsign | ⟨printed, hprinted⟩
    · have hsigns : ∀ sign ∈ exprSigns, ActionWord.ofSpelling? sign = none := by
        decide
      exact hsigns token hsign
    · exact hprinted.ofSpelling?_eq_none
  rw [arithOp?, hspelling]

/-- A printed value is read back, also where an operation and its operands may stand. -/
theorem readAssigned_of_printed
    (hvalue : Derives (.ofPrinter known) .disjunction context value valueExpr) :
    readAssigned known value = .ok valueExpr := by
  have hwhole : readWhole known .value value = .ok (some valueExpr) :=
    readAll_of_readBack hvalue.readBack .value
  have harith : ∀ token ∈ value, arithOp? token = none :=
    fun token htoken => (hvalue.isExprToken token htoken).arithOp?_eq_none
  have hne := hvalue.ne_nil
  unfold readAssigned
  rw [hwhole]
  extract_lets plain
  split
  · exact absurd rfl hne
  · -- three tokens would be an operation if the first of them named one
    rw [harith _ List.mem_cons_self]
  · rfl

theorem readExpr_of_printed_index {index : List String} {indexExpr : Expr}
    (hindex : Derives (.ofPrinter known) .disjunction context index indexExpr) :
    readExpr known .value index = .ok indexExpr [] := by
  have hread := readExpr_of_readBack hindex.readBack .value (Phrase.stops_nil _)
  rwa [List.append_nil] at hread

/-! ## The bracket behind the target -/

/-- The search for a closing token does not look behind it. -/
theorem splitAtClosing_append {opening closing : String} {depth : Nat}
    {tokens inside after : List String}
    (hsplit : splitAtClosing opening closing depth tokens = some (inside, after))
    (more : List String) :
    splitAtClosing opening closing depth (tokens ++ more) = some (inside, after ++ more) := by
  induction tokens generalizing depth inside after with
  | nil => cases hsplit
  | cons token rest ih =>
      -- a token in front of the bracket that closes is passed over on both sides
      have hpush {depth : Nat}
          (h : (splitAtClosing opening closing depth rest).map
            (fun parts => (token :: parts.1, parts.2)) = some (inside, after)) :
          (splitAtClosing opening closing depth (rest ++ more)).map
            (fun parts => (token :: parts.1, parts.2)) = some (inside, after ++ more) := by
        obtain ⟨⟨inner, behind⟩, hinner, heq⟩ := Option.map_eq_some_iff.mp h
        cases heq
        rw [ih hinner]
        rfl
      rw [List.cons_append]
      unfold splitAtClosing at hsplit ⊢
      simp only at hsplit ⊢
      split at hsplit
      next hopening =>
        rw [if_pos hopening]
        exact hpush hsplit
      next hopening =>
        rw [if_neg hopening]
        split at hsplit
        next hclosing =>
          rw [if_pos hclosing]
          split at hsplit
          · cases hsplit
            rfl
          · exact hpush hsplit
        next hclosing =>
          rw [if_neg hclosing]
          exact hpush hsplit

/-- The bracket that tokens begin with is closed by the last of them: it is open after every shorter
stretch. -/
def ClosesAtEnd (tokens : List String) : Prop :=
  ∀ length < tokens.length, 0 < length →
    (tokens.take length).count "]" < (tokens.take length).count "["

instance (tokens : List String) : Decidable (ClosesAtEnd tokens) :=
  inferInstanceAs (Decidable (∀ length < tokens.length, _ → _))

/-- In front of the closing token there are as many more closing ones than opening ones as the
search began with. -/
theorem count_of_splitAtClosing {opening closing : String} (hne : opening ≠ closing) {depth : Nat}
    {inside after : List String}
    (hsplit : splitAtClosing opening closing depth tokens = some (inside, after)) :
    inside.count closing = inside.count opening + depth := by
  induction tokens generalizing depth inside after with
  | nil => cases hsplit
  | cons token rest ih =>
      have hpush {depth : Nat}
          (h : (splitAtClosing opening closing depth rest).map
            (fun parts => (token :: parts.1, parts.2)) = some (inside, after)) :
          ∃ inner, inside = token :: inner ∧
            inner.count closing = inner.count opening + depth := by
        obtain ⟨⟨inner, behind⟩, hinner, heq⟩ := Option.map_eq_some_iff.mp h
        cases heq
        exact ⟨inner, rfl, ih hinner⟩
      unfold splitAtClosing at hsplit
      simp only at hsplit
      split at hsplit
      next hopening =>
        -- one more bracket is open behind this token
        obtain ⟨inner, rfl, hcount⟩ := hpush hsplit
        rw [hopening, List.count_cons_self, List.count_cons_of_ne hne, hcount]
        omega
      next hopening =>
        split at hsplit
        next hclosing =>
          split at hsplit
          · cases hsplit
            rfl
          · obtain ⟨inner, rfl, hcount⟩ := hpush hsplit
            rw [hclosing, List.count_cons_self, List.count_cons_of_ne hne.symm, hcount]
            omega
        next hclosing =>
          obtain ⟨inner, rfl, hcount⟩ := hpush hsplit
          rw [List.count_cons_of_ne hclosing, List.count_cons_of_ne hopening, hcount]

/-- Nothing comes behind the bracket that closes a value which it ends. -/
theorem ClosesAtEnd.after_eq_nil {inside after : List String}
    (hcloses : ClosesAtEnd ("[" :: tokens))
    (hsplit : splitAtClosing "[" "]" 0 tokens = some (inside, after)) : after = [] := by
  have hcount : inside.count "]" = inside.count "[" := count_of_splitAtClosing (by decide) hsplit
  obtain rfl := append_of_splitAtClosing hsplit
  by_contra hafter
  have hlonger : ("[" :: (inside ++ ["]"])).length <
      ("[" :: (inside ++ "]" :: after)).length := by
    have hpos := List.length_pos_iff.mpr hafter
    simp only [List.length_cons, List.length_append, List.length_nil]
    omega
  have hopen := hcloses _ hlonger (Nat.succ_pos _)
  have htake : ("[" :: (inside ++ "]" :: after)).take ("[" :: (inside ++ ["]"])).length =
      "[" :: (inside ++ ["]"]) := by
    have hsplit : "[" :: (inside ++ "]" :: after) = "[" :: (inside ++ ["]"]) ++ after := by simp
    rw [hsplit, List.take_left]
  -- behind the closing bracket there are as many of both kinds
  rw [htake] at hopen
  simp [List.count_append, hcount] at hopen

/-! ## Reading -/

/-- An assignment to an element: between its brackets stands an index, and behind them a value. -/
theorem readSet_of_element {args index : List String} {name : String} {indexExpr : Expr}
    (hargs : exprTokens args = name :: "[" :: (index ++ "]" :: value))
    (hsplit : splitAtClosing "[" "]" 0 (index ++ "]" :: value) = some (index, value))
    (hindex : readExpr known .value index = .ok indexExpr []) (hne : value ≠ [])
    (hvalue : readAssigned known value = .ok valueExpr) :
    readSet known args = .ok (.indexSet name indexExpr valueExpr) := by
  have hindexNe : index ≠ [] := by
    rintro rfl
    cases hindex
  have hlengthIndex := List.length_pos_iff.mpr hindexNe
  have hlengthValue := List.length_pos_iff.mpr hne
  -- an element takes at least five tokens
  have hlong : ¬ (name :: "[" :: (index ++ "]" :: value)).length < 5 := by
    simp only [List.length_cons, List.length_append]
    omega
  have hempty : value.isEmpty = false := List.isEmpty_eq_false_iff.mpr hne
  unfold readSet
  rw [hargs]
  simp only [hsplit, hlong, hempty, decide_false, Bool.or_self, Bool.false_eq_true, if_false,
    hindex, hvalue]
  rfl

/-- Before a printed value, the search for the bracket that closes a printed index passes over the
index. -/
theorem readSet_of_printed_index {args index : List String} {name : String} {indexExpr : Expr}
    {indexContext : Context} (hargs : exprTokens args = name :: "[" :: (index ++ "]" :: value))
    (hindex : Derives (.ofPrinter known) .disjunction indexContext index indexExpr)
    (hvalue : Derives (.ofPrinter known) .disjunction context value valueExpr) :
    readSet known args = .ok (.indexSet name indexExpr valueExpr) := by
  have hsquare : ("[", "]") ∈ bracketPairs := by decide
  have hclosing : splitAtClosing "[" "]" 0 ("]" :: value) = some ([], value) := by
    simp [splitAtClosing]
  have hsplit : splitAtClosing "[" "]" 0 (index ++ "]" :: value) = some (index, value) := by
    rw [hindex.matched hsquare, hclosing]
    simp
  exact readSet_of_element hargs hsplit (readExpr_of_printed_index hindex) hvalue.ne_nil
    (readAssigned_of_printed hvalue)

/-- An assignment to a name: the value begins with no bracket, or with one that it ends with. -/
theorem readSet_of_printed_value {args : List String} {name : String}
    (hargs : exprTokens args = name :: value)
    (hvalue : Derives (.ofPrinter known) .disjunction context value valueExpr)
    (hcloses : value.head? = some "[" → ClosesAtEnd value) :
    readSet known args = .ok (.set name valueExpr) := by
  have hread := readAssigned_of_printed hvalue
  obtain ⟨first, rest, rfl, -⟩ := hvalue.starts
  unfold readSet
  rw [hargs]
  simp only [hread]
  split
  next heq =>
    cases heq
    split
    next hsplit =>
      -- the brackets enclose the whole value, and nothing is left to be assigned
      obtain rfl := (hcloses rfl).after_eq_nil hsplit
      simp only [List.isEmpty_nil, Bool.or_true, if_true]
      rfl
    next => rfl
  next => rfl

/-- **Assignments are read back.**  Behind a source that lines can be added to, let the name of a
target and a printed value follow a word for assignments, with single blanks between the tokens and
quotable texts in quotes.  With a printed index in brackets between the two, the line assigns the
value to that element.  Without it, the line assigns the value to the name, if the value does not
begin with a bracket or ends with the bracket that closes this one. -/
theorem goesOn_printed_assignment {before name : String} {earlier : List Statement}
    (hbefore : Continuable before earlier known) (hword : ActionWord.ofSpelling? word = some .set)
    (hname : isIdentifier name = true)
    (hvalue : Derives (.ofPrinter known) .disjunction context value valueExpr)
    (hquoted : ∀ text, inBackticks text ∈ value → Quotable text) :
    (∀ (indexContext : Context) (index : List String) (indexExpr : Expr),
      Derives (.ofPrinter known) .disjunction indexContext index indexExpr →
      (∀ text, inBackticks text ∈ index → Quotable text) →
      GoesOn before earlier (joinWords (word :: name :: "[" :: (index ++ "]" :: value)))
        (.indexSet name indexExpr valueExpr)) ∧
    ((value.head? = some "[" → ClosesAtEnd value) →
      GoesOn before earlier (joinWords (word :: name :: value)) (.set name valueExpr)) := by
  have hwritable := hvalue.writable hquoted
  have hnameWritable : Writable name := .of_isIdentifier hname
  -- the signs of the language can be written
  have hbracket (sign : String) (hsign : sign ∈ exprSigns) : Writable sign :=
    writable_of_mem (List.mem_append_right _ hsign)
  constructor
  · intro indexContext index indexExpr hindex hquotedIndex
    have hall : ∀ token ∈ name :: "[" :: (index ++ "]" :: value), Writable token := by
      simp only [List.forall_mem_cons, List.forall_mem_append]
      exact ⟨hnameWritable, hbracket "[" (by decide), hindex.writable hquotedIndex,
        hbracket "]" (by decide), hwritable⟩
    exact hbefore.goesOn hword (List.cons_ne_nil _ _) hall
      (readSet_of_printed_index (exprTokens_lineWords hall) hindex hvalue)
  · intro hcloses
    have hall : ∀ token ∈ name :: value, Writable token :=
      List.forall_mem_cons.mpr ⟨hnameWritable, hwritable⟩
    exact hbefore.goesOn hword (List.cons_ne_nil _ _) hall
      (readSet_of_printed_value (exprTokens_lineWords hall) hvalue hcloses)

/-- Behind a line that sets a name, an element and a name get a list with a quoted bracket. -/
theorem goesOn_printed_assignment_list :
    let list : Expr := .list [.str "b ]" true, .ident "a"]
    ∃ earlier known, known.contains "a" = true ∧ Continuable "set a 1\n" earlier known ∧
      GoesOn "set a 1\n" earlier "set x [ a + 1 ] [ \x60\x60b ]\x60\x60 | a ]"
        (.indexSet "x" (.binary .add (.ident "a") (.number "1")) list) ∧
      GoesOn "set a 1\n" earlier "set x [ \x60\x60b ]\x60\x60 | a ]" (.set "x" list) := by
  intro list
  have hcontains : (parse "set a 1\n").toOption.map
      (fun parsed => (namesAfter parsed.program.statements).contains "a") = some true := by
    decide +kernel
  obtain ⟨parsed, hparse, hknown⟩ := exists_parsed hcontains
  have hbefore : Continuable "set a 1\n" parsed.program.statements
      (namesAfter parsed.program.statements) :=
    ⟨⟨parsed, hparse, rfl⟩, .inr ⟨"set a 1".toList, by decide⟩, by decide +kernel, of_namesAfter _⟩
  generalize namesAfter parsed.program.statements = known at hknown hbefore
  have hname : Derives (.ofPrinter known) .indexed .value ["a"] (.ident "a") :=
    .word (.ident (by decide +kernel) hknown (by decide +kernel))
  have hnumber : Derives (.ofPrinter known) .indexed .value ["1"] (.number "1") :=
    .word (.number (by decide +kernel))
  have htext : Derives (.ofPrinter known) .indexed .value [inBackticks "b ]"] (.str "b ]" true) :=
    .word (.quoted (by decide))
  have hindex : Derives (.ofPrinter known) .disjunction .value (["a"] ++ "+" :: ["1"])
      (.binary .add (.ident "a") (.number "1")) :=
    .disjunction_of_sum (.binary rfl rfl hname.sum_of_indexed (.loosen rfl (.loosen rfl hnumber)))
  have helements : Derives (.ofPrinter known) .elements .value
      ([inBackticks "b ]"] ++ "|" :: ["a"]) list :=
    .element (.disjunction_of_sum htext.sum_of_indexed)
      (.lastElement (.disjunction_of_sum hname.sum_of_indexed))
  have hlist : Derives (.ofPrinter known) .disjunction .value
      ("[" :: (([inBackticks "b ]"] ++ "|" :: ["a"]) ++ ["]"])) list :=
    .disjunction_of_sum (.sum_of_indexed (.list helements))
  have hquotable : Quotable "b ]" :=
    ⟨by decide, by decide, by decide +kernel, by decide, by decide, by decide⟩
  have hset : ActionWord.ofSpelling? "set" = some .set := rfl
  have htarget : isIdentifier "x" = true := by decide +kernel
  have hquoted (text : String)
      (hmem : inBackticks text ∈ "[" :: (([inBackticks "b ]"] ++ "|" :: ["a"]) ++ ["]"])) :
      Quotable text := by
    simp only [List.cons_append, List.nil_append, List.mem_cons, List.not_mem_nil, or_false,
      inBackticks_inj] at hmem
    rcases hmem with h | rfl | h | h | h
    case inr.inl => exact hquotable
    all_goals exact absurd h (inBackticks_ne (by decide))
  have hquotedIndex (text : String) (hmem : inBackticks text ∈ ["a"] ++ "+" :: ["1"]) :
      Quotable text := by
    simp only [List.cons_append, List.nil_append, List.mem_cons, List.not_mem_nil, or_false] at hmem
    rcases hmem with h | h | h
    all_goals exact absurd h (inBackticks_ne (by decide))
  obtain ⟨helement, hwhole⟩ := goesOn_printed_assignment hbefore hset htarget hlist hquoted
  exact ⟨_, _, hknown, hbefore, helement .value _ _ hindex hquotedIndex, hwhole fun _ => by decide⟩

end LineScript
