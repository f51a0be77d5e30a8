import LineScript.Proofs.Expr.RoundTrip
import LineScript.Proofs.Expr.Written

/-!
# Misplaced parentheses

Parentheses enclose combinations and nothing else.  Let one word of a printed expression, at any
depth, be replaced by parentheses around a printed expression that is no combination (`Misplaces`).
Main statement: then the readers fail with misplaced parentheses in both contexts, and no other
failure comes before this one (`readExpr_of_misplaces`).

## Strategy

The proof is by induction on the derivation of the expression whose word is replaced.  For each kind
of phrase it says how the reader of that kind fails (`Misreads`): whatever stands behind the phrase,
and in both contexts.  Three things have to be known on the way.

* **What stands before the replaced word** is read as it was (`Derives.readBack`), so that the
  readers come to the parentheses.  A case with two operands therefore splits on which of them holds
  the word: if it is the left one nothing else matters, and if it is the right one the left one is
  read back.
* **What stands around it** must not be read differently.  The parentheses still match, so that a
  group ends where it did (`Matched.replace`), and a list is not taken for an empty one, since the
  replaced phrase begins with something else than the closing bracket
  (`Derives.head?_ne_of_misplaces`).
* **Dictionaries** are read by way of their first expression.  A failure in the first key is a
  failure of that expression, while behind the first colon the brackets already count as a
  dictionary; so the entries carry both readings.

The phrases of calls do not occur, since the printer writes none.
-/

namespace LineScript

open Reading

variable {known : KnownNames} {context : Context} {tokens tokens' left right inside : List String}
  {token word opening closing : String} {expr : Expr}

/-! ## Replacing a word -/

/-- Parentheses around a printed expression that is no combination. -/
inductive MisplacedGroup (known : KnownNames) : List String → Prop
  | mk {context : Context} {inside : List String} {expr : Expr}
      (hinside : Derives (.ofPrinter known) .disjunction context inside expr)
      (hcombination : expr.isCombination = false) :
      MisplacedGroup known ("(" :: (inside ++ [")"]))

/-- The tokens become others if one printed word is replaced by misplaced parentheses. -/
inductive Misplaces (known : KnownNames) : List String → List String → Prop
  | here {word : String} {expr : Expr} {group : List String} (hword : PrintedAs known word expr)
      (hgroup : MisplacedGroup known group) (rest : List String) :
      Misplaces known (word :: rest) (group ++ rest)
  | there {tokens tokens' : List String} (token : String)
      (hmisplaces : Misplaces known tokens tokens') :
      Misplaces known (token :: tokens) (token :: tokens')

namespace Misplaces

/-- The word that is replaced, and what stands around it. -/
theorem exists_eq (hmisplaces : Misplaces known tokens tokens') :
    ∃ front word group back, (∃ expr, PrintedAs known word expr) ∧ MisplacedGroup known group ∧
      tokens = front ++ [word] ++ back ∧ tokens' = front ++ group ++ back := by
  induction hmisplaces with
  | here hword hgroup rest => exact ⟨[], _, _, rest, ⟨_, hword⟩, hgroup, rfl, rfl⟩
  | there token hmisplaces ih =>
      obtain ⟨front, word, group, back, hword, hgroup, rfl, rfl⟩ := ih
      exact ⟨token :: front, word, group, back, hword, hgroup, rfl, rfl⟩

theorem of_append (hmisplaces : Misplaces known (left ++ right) tokens') :
    (∃ left', Misplaces known left left' ∧ tokens' = left' ++ right) ∨
      ∃ right', Misplaces known right right' ∧ tokens' = left ++ right' := by
  induction left generalizing tokens' with
  | nil => exact .inr ⟨tokens', hmisplaces, rfl⟩
  | cons token left ih =>
      cases hmisplaces with
      | here hword hgroup =>
          exact .inl ⟨_, .here hword hgroup left, (List.append_assoc _ _ _).symm⟩
      | there _ hmisplaces =>
          rcases ih hmisplaces with ⟨left', hleft, rfl⟩ | ⟨right', hright, rfl⟩
          · exact .inl ⟨token :: left', .there token hleft, rfl⟩
          · exact .inr ⟨right', hright, rfl⟩

/-- Signs are not replaced. -/
theorem of_cons (hmisplaces : Misplaces known (token :: tokens) tokens')
    (htoken : token ∈ exprSigns) :
    ∃ rest, Misplaces known tokens rest ∧ tokens' = token :: rest := by
  cases hmisplaces with
  | here hword hgroup => exact absurd htoken hword.not_mem_exprSigns
  | there _ hmisplaces => exact ⟨_, hmisplaces, rfl⟩

theorem of_joined (hmisplaces : Misplaces known (left ++ word :: right) tokens')
    (hword : word ∈ operatorWords) :
    (∃ left', Misplaces known left left' ∧ tokens' = left' ++ word :: right) ∨
      ∃ right', Misplaces known right right' ∧ tokens' = left ++ word :: right' := by
  refine hmisplaces.of_append.imp_right ?_
  rintro ⟨_, hbehind, rfl⟩
  obtain ⟨right', hright, rfl⟩ := hbehind.of_cons (List.mem_append_right _ hword)
  exact ⟨right', hright, rfl⟩

theorem of_enclosed (hmisplaces : Misplaces known (opening :: (inside ++ [closing])) tokens')
    (hopening : opening ∈ exprSigns) (hclosing : closing ∈ exprSigns) :
    ∃ inside', Misplaces known inside inside' ∧ tokens' = opening :: (inside' ++ [closing]) := by
  obtain ⟨_, hbehind, rfl⟩ := hmisplaces.of_cons hopening
  rcases hbehind.of_append with ⟨inside', hinside, rfl⟩ | ⟨_, hnone, rfl⟩
  · exact ⟨inside', hinside, rfl⟩
  · obtain ⟨_, hnil, -⟩ := hnone.of_cons hclosing
    cases hnil

end Misplaces

/-! ## Brackets -/

/-- Misplaced parentheses match as the others do. -/
theorem Misplaces.balanced (hmisplaces : Misplaces known tokens tokens')
    (hbalanced : Balanced tokens) : Balanced tokens' := by
  have hround : ("(", ")") ∈ bracketPairs := by decide
  obtain ⟨front, word, _, back, ⟨_, hword⟩, ⟨hinside, -⟩, rfl, rfl⟩ := hmisplaces.exists_eq
  have hmatched : Matched ("(", ")") (front ++ [word] ++ back) := hbalanced
  exact hmatched.replace (.token hround hword.not_isBracket)
    ((hinside.matched hround).enclosed hround hround)

/-! ## First tokens -/

theorem Phrase.canStart_parenthesis (phrase : Phrase) : phrase.canStart "(" = true := by
  cases phrase <;> decide

/-- With a word replaced, a phrase begins as it did or with a parenthesis. -/
theorem Derives.starts_of_misplaces {phrase : Phrase}
    (hderives : Derives (.ofPrinter known) phrase context tokens expr)
    (hmisplaces : Misplaces known tokens tokens') :
    ∃ first rest, tokens' = first :: rest ∧ phrase.canStart first = true := by
  obtain ⟨first, rest, rfl, hstart⟩ := hderives.starts
  cases hmisplaces with
  | here hword hgroup =>
      obtain ⟨hinside, -⟩ := hgroup
      exact ⟨_, _, rfl, phrase.canStart_parenthesis⟩
  | there _ hmisplaces => exact ⟨first, _, rfl, hstart⟩

/-! ## Readers that fail -/

section Standing

variable {α β : Type} {operand : Reader Expr} {phrase : Phrase}

/-- The reader fails on the tokens with misplaced parentheses, whatever stands behind them. -/
def Breaks (reader : Reader α) (tokens : List String) : Prop :=
  ∀ rest, ∃ after, reader (tokens ++ rest) = .error .misplacedParentheses after

/-- The reader for items fails on the tokens.  If it does not so on the first expression among them,
a colon stands behind this one exactly for entries of a dictionary. -/
def Misitemized (inner : InnerReader) (bracket : Bracket) (item : Reader α) (entries : Bool)
    (tokens : List String) : Prop :=
  Breaks (readItems bracket item) tokens ∧ ∀ rest,
    (∃ after, inner .value (tokens ++ rest) = .error .misplacedParentheses after) ∨
      ∃ first after, inner .value (tokens ++ rest) = .ok first after ∧
        after.head?.any isColon = entries

/-- The readers for a kind of phrases fail on the tokens. -/
def Misreads (known : KnownNames) (phrase : Phrase) (tokens : List String) : Prop :=
  let inner := readExpr known
  match phrase with
  | .disjunction => ∀ context, Breaks (readDisjunction inner known context) tokens
  | .conjunction => ∀ context, Breaks (readConjunction inner known context) tokens
  | .negation => ∀ context,
      Breaks (readNegation (readComparison (readSum inner known) context)) tokens
  | .comparison => ∀ context, Breaks (readComparison (readSum inner known) context) tokens
  | .sum => ∀ context, Breaks (readSum inner known context) tokens
  | .product => ∀ context, Breaks (readProduct inner known context) tokens
  | .signed => ∀ context, Breaks (readSigned (readIndexed inner known context)) tokens
  | .indexed => ∀ context, Breaks (readIndexed inner known context) tokens
  | .elements => Misitemized inner .list (inner .value) false tokens
  | .entries => Misitemized inner .dict (readEntry inner) true tokens
  | .call => False

theorem Breaks.append {reader : Reader α} (hbreaks : Breaks reader tokens) (more : List String) :
    Breaks reader (tokens ++ more) := by
  intro rest
  rw [List.append_assoc]
  exact hbreaks (more ++ rest)

theorem Misitemized.append {inner : InnerReader} {bracket : Bracket} {item : Reader α}
    {entries : Bool} (hmisreads : Misitemized inner bracket item entries tokens)
    (more : List String) : Misitemized inner bracket item entries (tokens ++ more) := by
  refine ⟨hmisreads.1.append more, fun rest => ?_⟩
  rw [List.append_assoc]
  exact hmisreads.2 (more ++ rest)

/-- What the readers fail on they also fail on with more tokens behind it. -/
theorem Misreads.append (hmisreads : Misreads known phrase tokens) (more : List String) :
    Misreads known phrase (tokens ++ more) := by
  cases phrase with
  | elements => exact Misitemized.append hmisreads more
  | entries => exact Misitemized.append hmisreads more
  | call => exact hmisreads.elim
  | _ => exact fun context => (hmisreads context).append more

theorem Breaks.andThen {reader : Reader α} (hbreaks : Breaks reader tokens)
    (next : α → Reader β) : Breaks (fun tokens => (reader tokens).andThen next) tokens := by
  intro rest
  obtain ⟨after, herror⟩ := hbreaks rest
  exact ⟨after, by simp only [herror, andThen_error]⟩

/-- A chain fails on its first operand, -/
theorem Breaks.chain (hbreaks : Breaks operand tokens) (operator : String → Option BinaryOp) :
    Breaks (readChain operator operand) tokens :=
  hbreaks.andThen _

/-- and on every other one. -/
theorem Chained.breaks {op : BinaryOp} (hop : phrase.operator? word = some op)
    (hleft : Chained phrase operand left expr) (hright : Breaks operand right) :
    Breaks (readChain phrase.operator? operand) (left ++ word :: right) := by
  intro rest
  obtain ⟨after, herror⟩ := hright rest
  refine ⟨after, ?_⟩
  have htokens : left ++ word :: right ++ rest = left ++ word :: (right ++ rest) := by simp
  have hstops : ∀ tight, phrase.tighter? = some tight → tight.Stops (word :: (right ++ rest)) :=
    fun tight htight => Phrase.stops_cons (Phrase.goesOn_of_operator? htight hop)
  rw [htokens, hleft _ hstops, List.length_cons, readChainRest, hop]
  simp only [herror, andThen_error]

end Standing

section Rules

/-! ### Brackets and parentheses -/

theorem breaks_readExpr (hmisreads : Misreads known .disjunction tokens) (context : Context) :
    Breaks (readExpr known context) tokens := by
  intro rest
  rw [readExpr_eq]
  exact hmisreads context rest

theorem readExpr_of_misreads (hmisreads : Misreads known .disjunction tokens) (context : Context) :
    ∃ after, readExpr known context tokens = .error .misplacedParentheses after := by
  obtain ⟨after, herror⟩ := breaks_readExpr hmisreads context []
  rw [List.append_nil] at herror
  exact ⟨after, herror⟩

/-- A failure inside of parentheses is the failure of all tokens there. -/
theorem readAll_of_misreads (hmisreads : Misreads known .disjunction tokens) (context : Context) :
    readAll (readExpr known) context tokens = .error .misplacedParentheses := by
  obtain ⟨after, herror⟩ := readExpr_of_misreads hmisreads context
  simp only [readAll, herror, andThen_error]

theorem breaks_readIndexed (hgroup : ∀ rest, readGroup (readExpr known) (inside ++ ")" :: rest) =
    .error .misplacedParentheses rest) :
    Misreads known .indexed ("(" :: (inside ++ [")"])) := by
  refine fun context => Breaks.andThen (fun rest => ⟨rest, ?_⟩) _
  have htokens : "(" :: (inside ++ [")"]) ++ rest = "(" :: (inside ++ ")" :: rest) := by simp
  have hliteral : literal? "(" = none := rfl
  rw [htokens, readPrimary, hliteral]
  exact hgroup rest

/-- Misplaced parentheses are noticed where they stand. -/
theorem MisplacedGroup.misreads (hgroup : MisplacedGroup known tokens) :
    Misreads known .indexed tokens := by
  obtain ⟨hinside, hcombination⟩ := hgroup
  refine breaks_readIndexed fun rest => ?_
  rw [readGroup_of_balanced hinside.balanced hinside.ne_nil,
    readAll_of_readBack hinside.readBack]
  simp [hcombination]

theorem Misreads.group (hmisreads : Misreads known .disjunction tokens)
    (hbalanced : Balanced tokens) (hne : tokens ≠ []) :
    Misreads known .indexed ("(" :: (tokens ++ [")"])) := by
  refine breaks_readIndexed fun rest => ?_
  rw [readGroup_of_balanced hbalanced hne, readAll_of_misreads hmisreads]

theorem Misreads.index (hcontainer : ReadBack known .indexed left expr)
    (hmisreads : Misreads known .disjunction tokens) :
    Misreads known .indexed (left ++ "[" :: (tokens ++ ["]"])) := by
  intro context rest
  obtain ⟨after, herror⟩ := breaks_readExpr hmisreads .value ("]" :: rest)
  refine ⟨after, ?_⟩
  have htokens : left ++ "[" :: (tokens ++ ["]"]) ++ rest =
      left ++ "[" :: (tokens ++ "]" :: rest) := by simp
  rw [htokens, hcontainer, List.length_cons, readIndices]
  simp only [herror, andThen_error]

/-! ### Items -/

section Items

variable {α : Type} {bracket : Bracket} {item : Reader α}

/-- The reader for items fails on the first of them, -/
theorem Breaks.items (hbreaks : Breaks item tokens) (bracket : Bracket) :
    Breaks (readItems bracket item) tokens :=
  hbreaks.andThen _

/-- and on the others behind a bar. -/
theorem breaks_readItems_bar (hadvances : item.Advances) {value : α}
    (hfirst : ∀ rest, item (left ++ "|" :: (right ++ rest)) = .ok value ("|" :: (right ++ rest)))
    (hright : Breaks (readItems bracket item) right) :
    Breaks (readItems bracket item) (left ++ "|" :: right) := by
  intro rest
  obtain ⟨after, herror⟩ := hright rest
  refine ⟨after, ?_⟩
  have htokens : left ++ "|" :: right ++ rest = left ++ "|" :: (right ++ rest) := by simp
  rw [htokens, readItems_bar hadvances (hfirst rest), herror]
  rfl

end Items

theorem Misreads.lastElement (hmisreads : Misreads known .disjunction tokens) :
    Misreads known .elements tokens :=
  have hbreaks := breaks_readExpr hmisreads .value
  ⟨hbreaks.items .list, fun rest => .inl (hbreaks rest)⟩

theorem Misreads.element (hread : ReadBack known .disjunction left expr)
    (hmisreads : Misreads known .elements right) :
    Misreads known .elements (left ++ "|" :: right) := by
  have hfirst (rest : List String) : readExpr known .value (left ++ "|" :: (right ++ rest)) =
      .ok expr ("|" :: (right ++ rest)) :=
    readExpr_of_readBack hread .value (Phrase.stops_cons rfl)
  obtain ⟨hitems, -⟩ := hmisreads
  refine ⟨breaks_readItems_bar (readExpr_advances known .value) hfirst hitems,
    fun rest => .inr ⟨expr, "|" :: (right ++ rest), ?_, rfl⟩⟩
  rw [List.append_assoc]
  exact hfirst rest

section Entries

variable {key value : List String} {colon : String} {keyExpr valueExpr : Expr}

/-- The readers for entries fail on the first key, -/
theorem Misreads.entryKey (hmisreads : Misreads known .disjunction tokens) :
    Misreads known .entries tokens :=
  have hbreaks := breaks_readExpr hmisreads .value
  have hentry : Breaks (readEntry (readExpr known)) tokens := hbreaks.andThen _
  ⟨hentry.items .dict, fun rest => .inl (hbreaks rest)⟩

/-- on the first value, -/
theorem Misreads.entryValue (hcolon : isColon colon = true)
    (hkey : ReadBack known .disjunction key keyExpr)
    (hmisreads : Misreads known .disjunction value) :
    Misreads known .entries (key ++ colon :: value) := by
  have hcolonStops (rest : List String) : Phrase.disjunction.Stops (colon :: (value ++ rest)) :=
    Phrase.stops_cons (Phrase.disjunction_goesOn_of_isColon hcolon)
  -- the key is read as before, up to the colon
  have hfirst (rest : List String) : readExpr known .value (key ++ colon :: value ++ rest) =
      .ok keyExpr (colon :: (value ++ rest)) := by
    rw [List.append_assoc]
    exact readExpr_of_readBack hkey .value (hcolonStops rest)
  have hentry : Breaks (readEntry (readExpr known)) (key ++ colon :: value) := by
    intro rest
    obtain ⟨after, herror⟩ := breaks_readExpr hmisreads .value rest
    refine ⟨after, ?_⟩
    rw [readEntry, hfirst, andThen_ok]
    simp only [hcolon, if_true, herror]
    rfl
  exact ⟨hentry.items .dict, fun rest => .inr ⟨keyExpr, _, hfirst rest, by simp [hcolon]⟩⟩

/-- and on the other entries behind a bar. -/
theorem Misreads.entry (hcolon : isColon colon = true)
    (hkey : ReadBack known .disjunction key keyExpr)
    (hvalue : ReadBack known .disjunction value valueExpr)
    (hmisreads : Misreads known .entries right) :
    Misreads known .entries (key ++ colon :: (value ++ "|" :: right)) := by
  obtain ⟨hitems, -⟩ := hmisreads
  -- the first entry is read as before, up to the bar
  have hboth (rest : List String) := readEntry_of_readBack hcolon hkey hvalue
    (Phrase.stops_cons rfl : Phrase.disjunction.Stops ("|" :: (right ++ rest)))
  have htokens (rest : List String) : key ++ colon :: (value ++ "|" :: right) ++ rest =
      key ++ colon :: (value ++ "|" :: (right ++ rest)) := by simp
  constructor
  · have hfirst (rest : List String) := (hboth rest).2
    simp only [← List.cons_append, ← List.append_assoc key] at hfirst
    have hbreaks :=
      breaks_readItems_bar (readEntry_advances (readExpr_advances known)) hfirst hitems
    rwa [List.append_assoc] at hbreaks
  · intro rest
    rw [htokens]
    exact .inr ⟨keyExpr, _, (hboth rest).1, by simp [hcolon]⟩

end Entries

/-! ### Literals -/

theorem Misreads.mapDict {word : String} (hword : isMapWord word = true)
    (hmisreads : Misreads known .entries tokens)
    (hhead : ∀ rest, (tokens ++ rest).head? ≠ some "]") :
    Misreads known .indexed (word :: "[" :: (tokens ++ ["]"])) := by
  refine fun context => Breaks.andThen (fun rest => ?_) _
  obtain ⟨hitems, -⟩ := hmisreads
  obtain ⟨after, herror⟩ := hitems ("]" :: rest)
  have htokens : word :: "[" :: (tokens ++ ["]"]) ++ rest =
      word :: "[" :: (tokens ++ "]" :: rest) := by simp
  refine ⟨after, ?_⟩
  rw [htokens, readPrimary_map hword, readDict_eq_readEntries (hhead _), readEntries, herror]
  rfl

theorem misreads_bracketed (hbracketed : ∀ rest, ∃ after,
      readBracketed (readExpr known) (tokens ++ "]" :: rest) = .error .misplacedParentheses after) :
    Misreads known .indexed ("[" :: (tokens ++ ["]"])) := by
  refine fun context => Breaks.andThen (fun rest => ?_) _
  have htokens : "[" :: (tokens ++ ["]"]) ++ rest = "[" :: (tokens ++ "]" :: rest) := by simp
  rw [htokens, readPrimary_bracket]
  exact hbracketed rest

theorem Misreads.list (hmisreads : Misreads known .elements tokens)
    (hhead : ∀ rest, (tokens ++ rest).head? ≠ some "]") :
    Misreads known .indexed ("[" :: (tokens ++ ["]"])) := by
  refine misreads_bracketed fun rest => ?_
  obtain ⟨hitems, hfirst⟩ := hmisreads
  rcases hfirst ("]" :: rest) with ⟨after, herror⟩ | ⟨first, after, hfirst, hcolon⟩
  · exact ⟨after, readBracketed_of_error (hhead _) herror⟩
  · obtain ⟨behind, herror⟩ := hitems ("]" :: rest)
    exact ⟨behind, by rw [readBracketed_eq_list (hhead _) hfirst hcolon, herror]; rfl⟩

theorem Misreads.dict (hmisreads : Misreads known .entries tokens)
    (hhead : ∀ rest, (tokens ++ rest).head? ≠ some "]") :
    Misreads known .indexed ("[" :: (tokens ++ ["]"])) := by
  refine misreads_bracketed fun rest => ?_
  obtain ⟨hitems, hfirst⟩ := hmisreads
  rcases hfirst ("]" :: rest) with ⟨after, herror⟩ | ⟨first, after, hfirst, hcolon⟩
  · exact ⟨after, readBracketed_of_error (hhead _) herror⟩
  · obtain ⟨behind, herror⟩ := hitems ("]" :: rest)
    exact ⟨behind, by rw [readBracketed_eq_dict (hhead _) hfirst hcolon, readEntries, herror]; rfl⟩

/-! ### Levels -/

variable {phrase tight : Phrase}

theorem Misreads.loosen (htight : phrase.tighter? = some tight)
    (hstarts : ∃ first rest, tokens = first :: rest ∧ tight.canStart first = true)
    (hmisreads : Misreads known tight tokens) : Misreads known phrase tokens := by
  obtain ⟨first, behind, rfl, hstart⟩ := hstarts
  -- chains and comparisons begin with an operand, and the prefix levels look at the first token
  cases phrase with
  | disjunction | conjunction | sum | product =>
      cases htight
      exact fun context => (hmisreads context).chain _
  | comparison =>
      cases htight
      exact fun context => (hmisreads context).andThen _
  | negation =>
      cases htight
      intro context rest
      rw [List.cons_append, readNegation, Phrase.isNotWord_of_canStart hstart]
      exact hmisreads context rest
  | signed =>
      cases htight
      intro context rest
      rw [List.cons_append, readSigned_of_not_sign (Phrase.ofSign?_of_canStart hstart)]
      exact hmisreads context rest
  | indexed | elements | entries | call => cases htight

/-- An operator of a level comes to its right operand. -/
theorem Misreads.binary {op : BinaryOp} (htight : phrase.tighter? = some tight)
    (hop : phrase.operator? word = some op) (hleft : ReadBack known phrase left expr)
    (hmisreads : Misreads known tight right) :
    Misreads known phrase (left ++ word :: right) := by
  cases phrase with
  | disjunction | conjunction | sum | product =>
      cases htight
      exact fun context => Chained.breaks hop (hleft context) (hmisreads context)
  | _ => cases hop

theorem Misreads.compare {op : BinaryOp} (hop : BinaryOp.ofComparisonWord? word = some op)
    (hleft : ReadBack known .sum left expr) (hmisreads : Misreads known .sum right) :
    Misreads known .comparison (left ++ word :: right) := by
  intro context rest
  obtain ⟨after, herror⟩ := hmisreads .value rest
  refine ⟨after, ?_⟩
  have htokens : left ++ word :: right ++ rest = left ++ word :: (right ++ rest) := by simp
  have hword : Phrase.sum.Stops (word :: (right ++ rest)) :=
    Phrase.stops_cons (Phrase.sum_goesOn_of_ofComparisonWord? hop)
  -- the left side is read as before, up to the comparison word
  have hsum : readSum (readExpr known) known context (left ++ word :: (right ++ rest)) =
      .ok expr (word :: (right ++ rest)) :=
    (hleft context).settled rfl (fun _ => rfl) _ hword
  rw [htokens, readComparison, hsum, andThen_ok]
  simp only [hop, herror]
  rfl

theorem Misreads.not (hword : isNotWord word = true)
    (hmisreads : Misreads known .negation tokens) :
    Misreads known .negation (word :: tokens) := by
  intro context rest
  obtain ⟨after, herror⟩ := hmisreads context rest
  refine ⟨after, ?_⟩
  rw [List.cons_append, readNegation, hword, if_pos rfl, herror]
  rfl

theorem Misreads.sign {op : UnaryOp} (hop : UnaryOp.ofSign? word = some op)
    (hne : tokens ≠ []) (hmisreads : Misreads known .signed tokens) :
    Misreads known .signed (word :: tokens) := by
  obtain ⟨first, behind, rfl⟩ := List.exists_cons_of_ne_nil hne
  intro context rest
  obtain ⟨after, herror⟩ := hmisreads context rest
  refine ⟨after, ?_⟩
  rw [List.cons_append] at herror
  rw [List.cons_append, List.cons_append, readSigned, hop]
  simp only [herror]
  rfl

end Rules

/-! ## All printings -/

variable {phrase : Phrase}

theorem Derives.ne_nil_of_misplaces
    (hderives : Derives (.ofPrinter known) phrase context tokens expr)
    (hmisplaces : Misplaces known tokens tokens') : tokens' ≠ [] := by
  obtain ⟨first, rest, rfl, -⟩ := hderives.starts_of_misplaces hmisplaces
  exact List.cons_ne_nil first rest

theorem Derives.head?_ne_of_misplaces
    (hderives : Derives (.ofPrinter known) phrase context tokens expr)
    (hmisplaces : Misplaces known tokens tokens') (rest : List String) :
    (tokens' ++ rest).head? ≠ some "]" :=
  Phrase.head?_ne_of_starts (hderives.starts_of_misplaces hmisplaces) rest

/-- The readers come to misplaced parentheses and fail there. -/
theorem Derives.misreads (hderives : Derives (.ofPrinter known) phrase context tokens expr)
    (hmisplaces : Misplaces known tokens tokens') : Misreads known phrase tokens' := by
  have hbar : "|" ∈ operatorWords := by decide
  have hround : "(" ∈ exprSigns ∧ ")" ∈ exprSigns := by decide
  have hsquare : "[" ∈ exprSigns ∧ "]" ∈ exprSigns := by decide
  -- brackets with nothing between them have no word to replace
  have hempty {tokens' : List String} : ¬ Misplaces known ["[", "]"] tokens' := by
    intro hmisplaces
    obtain ⟨_, hbehind, rfl⟩ := hmisplaces.of_cons hsquare.1
    obtain ⟨_, hnil, -⟩ := hbehind.of_cons hsquare.2
    cases hnil
  induction hderives generalizing tokens' with
  | loosen htight hderives ih =>
      exact (ih hmisplaces).loosen htight (hderives.starts_of_misplaces hmisplaces)
  | binary htight hop hleft hright ihLeft ihRight =>
      rcases hmisplaces.of_joined (Phrase.mem_operatorWords hop) with
        ⟨left', hreplaced, rfl⟩ | ⟨right', hreplaced, rfl⟩
      · -- in the left operand: the reader does not come to the operator
        exact (ihLeft hreplaced).append _
      · -- in the right one: the left operand is read back before it
        exact (ihRight hreplaced).binary htight hop hleft.readBack
  | compare hop hleft hright ihLeft ihRight =>
      rcases hmisplaces.of_joined (mem_operatorWords_of_ofComparisonWord? hop) with
        ⟨left', hreplaced, rfl⟩ | ⟨right', hreplaced, rfl⟩
      · exact ((ihLeft hreplaced).loosen rfl (hleft.starts_of_misplaces hreplaced)).append _
      · exact (ihRight hreplaced).compare hop hleft.readBack
  | not hword hderives ih =>
      obtain ⟨rest, hreplaced, rfl⟩ :=
        hmisplaces.of_cons (List.mem_append_right _ (mem_operatorWords_of_isNotWord hword))
      exact (ih hreplaced).not hword
  | sign hop hderives ih =>
      obtain ⟨rest, hreplaced, rfl⟩ :=
        hmisplaces.of_cons (List.mem_append_right _ (mem_operatorWords_of_ofSign? hop))
      exact (ih hreplaced).sign hop (hderives.ne_nil_of_misplaces hreplaced)
  | index hcontainer hindex ihContainer ihIndex =>
      rcases hmisplaces.of_append with ⟨container', hreplaced, rfl⟩ | ⟨_, hbehind, rfl⟩
      · exact (ihContainer hreplaced).append _
      · obtain ⟨index', hreplaced, rfl⟩ := hbehind.of_enclosed hsquare.1 hsquare.2
        exact .index hcontainer.readBack (ihIndex hreplaced)
  | word hspells =>
      cases hmisplaces with
      -- the word itself is replaced, and parentheses stand in its place
      | here hword hgroup => exact hgroup.misreads.append []
      | there _ hnil => cases hnil
  | group hcombination hderives ih =>
      obtain ⟨inside', hreplaced, rfl⟩ := hmisplaces.of_enclosed hround.1 hround.2
      -- the parentheses around it still end where they did
      exact (ih hreplaced).group (hreplaced.balanced hderives.balanced)
        (hderives.ne_nil_of_misplaces hreplaced)
  -- the printer writes no calls
  | callGroup hargs hderives ih => exact hderives.readBack.elim
  | callee hfunc => exact hfunc.elim
  | argument hcall harg ihCall ihArg => exact hcall.readBack.elim
  | emptyList => exact absurd hmisplaces hempty
  | list helements ih =>
      obtain ⟨inside', hreplaced, rfl⟩ := hmisplaces.of_enclosed hsquare.1 hsquare.2
      exact (ih hreplaced).list (helements.head?_ne_of_misplaces hreplaced)
  | lastElement helement ih => exact (ih hmisplaces).lastElement
  | element helement hmore ihElement ihMore =>
      rcases hmisplaces.of_joined hbar with ⟨first', hreplaced, rfl⟩ | ⟨more', hreplaced, rfl⟩
      · exact (ihElement hreplaced).lastElement.append _
      · -- in a later element: those in front of it are read back
        exact .element helement.readBack (ihMore hreplaced)
  | emptyDict hword =>
      obtain ⟨rest, hreplaced, rfl⟩ :=
        hmisplaces.of_cons (List.mem_append_right _ (mem_operatorWords_of_isMapWord hword))
      exact absurd hreplaced hempty
  | mapDict hword hentries ih =>
      obtain ⟨_, hbehind, rfl⟩ :=
        hmisplaces.of_cons (List.mem_append_right _ (mem_operatorWords_of_isMapWord hword))
      obtain ⟨inside', hreplaced, rfl⟩ := hbehind.of_enclosed hsquare.1 hsquare.2
      exact (ih hreplaced).mapDict hword (hentries.head?_ne_of_misplaces hreplaced)
  | dict hentries ih =>
      obtain ⟨inside', hreplaced, rfl⟩ := hmisplaces.of_enclosed hsquare.1 hsquare.2
      exact (ih hreplaced).dict (hentries.head?_ne_of_misplaces hreplaced)
  | lastEntry hcolon hkey hvalue ihKey ihValue =>
      rcases hmisplaces.of_joined (mem_operatorWords_of_isColon hcolon) with
        ⟨key', hreplaced, rfl⟩ | ⟨value', hreplaced, rfl⟩
      · exact (ihKey hreplaced).entryKey.append _
      · exact .entryValue hcolon hkey.readBack (ihValue hreplaced)
  | entry hcolon hkey hvalue hmore ihKey ihValue ihMore =>
      rcases hmisplaces.of_joined (mem_operatorWords_of_isColon hcolon) with
        ⟨key', hreplaced, rfl⟩ | ⟨_, hbehind, rfl⟩
      · exact (ihKey hreplaced).entryKey.append _
      · -- behind the colon: in the value, or in a later entry
        rcases hbehind.of_joined hbar with ⟨value', hreplaced, rfl⟩ | ⟨more', hreplaced, rfl⟩
        · have hfails : Misreads known .entries _ :=
            .entryValue hcolon hkey.readBack (ihValue hreplaced)
          simpa using hfails.append _
        · exact .entry hcolon hkey.readBack hvalue.readBack (ihMore hreplaced)

/-- **Misplaced parentheses stop the readers.**  In both contexts they are the failure that reading
the tokens ends with, whether all of the tokens have to be read or not. -/
theorem readExpr_of_misplaces
    (hderives : Derives (.ofPrinter known) .disjunction context tokens expr)
    (hmisplaces : Misplaces known tokens tokens') (context' : Context) :
    (∃ after, readExpr known context' tokens' = .error .misplacedParentheses after) ∧
      readWhole known context' tokens' = .error .misplacedParentheses := by
  have hmisreads : Misreads known .disjunction tokens' := hderives.misreads hmisplaces
  exact ⟨readExpr_of_misreads hmisreads context', readAll_of_misreads hmisreads context'⟩

end LineScript
