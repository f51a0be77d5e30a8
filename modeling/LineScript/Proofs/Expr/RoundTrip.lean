import LineScript.Proofs.Expr.Printing
import LineScript.Proofs.Expr.Steps

/-!
# Reading undoes printing

A printed expression is read back as it was, before everything that does not go on with it.  Main
statement: `readExpr_of_printed`.

## Strategy

The proof is by induction on the derivation.  Three obstacles are in the way.

* **Chains combine from the left.**  A phrase that does so is not read by one call of a reader:
  after its left operand the reader stands in the middle of a loop.  The induction therefore carries
  for each kind of phrase where the reader stands (`ReadBack`): behind the phrase, with the loop of
  its level still to run.  Only where what follows does not go on with the phrase has the loop
  nothing to do (`settled`).
* **What follows.**  A tighter phrase may be followed by more than a looser one.  Each phrase has
  its words that go on with it (`Phrase.goesOn`), and what stands behind an operand, an operator of
  a looser level or a closing bracket, is none of them.
* **Looser phrases.**  Most of the ladder is made of phrases that are their own next level.  There
  the reader tries the looser forms first, and has to see from the first token that they do not
  apply (`Derives.starts`), or from the token behind (`ReadBack.loosen`).

With these each rule of the grammar has a lemma `ReadBack.…` of its own, and `Derives.readBack` does
no more than name them.
-/

namespace LineScript

open Reading

variable {α : Type} {inner : InnerReader} {operand : Reader Expr}

/-! ## What goes on with a phrase -/

namespace Phrase

/-- The levels from the loosest to the tightest. -/
def ladder : List Phrase :=
  [.disjunction, .conjunction, .negation, .comparison, .sum, .product, .signed, .indexed]

/-- Whether a token behind a phrase of a level makes it a longer one of that level. -/
def extendedBy : Phrase → String → Bool
  | .comparison, token => (BinaryOp.ofComparisonWord? token).isSome
  | .indexed, token => token = "["
  | phrase, token => (phrase.operator? token).isSome

/-- Whether a token behind a phrase goes on with it on its own level or a tighter one. -/
def goesOn (phrase : Phrase) (token : String) : Bool :=
  (ladder.dropWhile (· ≠ phrase)).any (·.extendedBy token)

/-- What follows does not go on with a phrase. -/
def Stops (phrase : Phrase) (rest : List String) : Prop :=
  ∀ token ∈ rest.head?, phrase.goesOn token = false

variable {phrase tight : Phrase} {word token : String} {rest : List String}

theorem goesOn_of_tighter? (htight : phrase.tighter? = some tight) (token : String) :
    phrase.goesOn token = (phrase.extendedBy token || tight.goesOn token) := by
  cases phrase <;> cases htight <;> rfl

theorem Stops.tighter (hstops : phrase.Stops rest) (htight : phrase.tighter? = some tight) :
    tight.Stops rest := by
  intro token htoken
  have hgoesOn := hstops token htoken
  rw [goesOn_of_tighter? htight, Bool.or_eq_false_iff] at hgoesOn
  exact hgoesOn.2

theorem Stops.not_extendedBy (hstops : phrase.Stops rest) (htight : phrase.tighter? = some tight)
    {token : String} (htoken : token ∈ rest.head?) : phrase.extendedBy token = false := by
  have hgoesOn := hstops token htoken
  rw [goesOn_of_tighter? htight, Bool.or_eq_false_iff] at hgoesOn
  exact hgoesOn.1

theorem stops_nil (phrase : Phrase) : phrase.Stops [] := by
  intro token htoken
  cases htoken

theorem stops_cons (hgoesOn : phrase.goesOn token = false) : phrase.Stops (token :: rest) := by
  intro head hhead
  cases hhead
  exact hgoesOn

/-- The operators of a level do not go on with a phrase of the next tighter one. -/
theorem goesOn_of_operator? (htight : phrase.tighter? = some tight) {op : BinaryOp}
    (hop : phrase.operator? word = some op) : tight.goesOn word = false := by
  cases phrase with
  | disjunction =>
      cases htight
      obtain ⟨rfl | rfl, -⟩ : (word = "or" ∨ word = "或") ∧ BinaryOp.or = op := by
        simpa [operator?, isOrWord] using hop
      all_goals rfl
  | conjunction =>
      cases htight
      obtain ⟨rfl | rfl, -⟩ : (word = "and" ∨ word = "且") ∧ BinaryOp.and = op := by
        simpa [operator?, isAndWord] using hop
      all_goals rfl
  | sum =>
      cases htight
      change BinaryOp.ofSumWord? word = some op at hop
      -- finitely many words each, none of which goes on with a tighter phrase
      unfold BinaryOp.ofSumWord? at hop
      split at hop
      all_goals first | rfl | cases hop
  | product =>
      cases htight
      change BinaryOp.ofProductWord? word = some op at hop
      unfold BinaryOp.ofProductWord? at hop
      split at hop
      all_goals first | rfl | cases hop
  | _ => cases hop

theorem sum_goesOn_of_ofComparisonWord? {op : BinaryOp}
    (hop : BinaryOp.ofComparisonWord? word = some op) : sum.goesOn word = false := by
  unfold BinaryOp.ofComparisonWord? BinaryOp.ofComparisonSymbol? at hop
  repeat' split at hop
  all_goals first | rfl | cases hop

theorem disjunction_goesOn_of_isColon (hcolon : isColon word = true) :
    disjunction.goesOn word = false := by
  rcases eq_of_isColon hcolon with rfl | rfl
  all_goals rfl

end Phrase

/-! ## Where the readers stand behind a phrase -/

section Standing

variable {phrase tight : Phrase} {tokens : List String} {expr : Expr}

/-- The reader reads the expression before everything that does not go on with the phrase. -/
def Settled (phrase : Phrase) (reader : Reader Expr) (tokens : List String) (expr : Expr) : Prop :=
  ∀ rest, phrase.Stops rest → reader (tokens ++ rest) = .ok expr rest

/-- The chain of a level is in its loop behind the tokens, with the expression as left operand. -/
def Chained (phrase : Phrase) (operand : Reader Expr) (tokens : List String) (expr : Expr) : Prop :=
  ∀ rest, (∀ tight, phrase.tighter? = some tight → tight.Stops rest) →
    readChain phrase.operator? operand (tokens ++ rest) =
      readChainRest phrase.operator? operand rest.length expr rest

theorem Settled.chained (hsettled : Settled tight operand tokens expr)
    (htight : phrase.tighter? = some tight) : Chained phrase operand tokens expr := by
  intro rest hstops
  rw [readChain, hsettled rest (hstops tight htight), andThen_ok]

theorem Chained.settled (hchained : Chained phrase operand tokens expr)
    (htight : phrase.tighter? = some tight)
    (hoperator : ∀ token, phrase.extendedBy token = (phrase.operator? token).isSome) :
    Settled phrase (readChain phrase.operator? operand) tokens expr := by
  intro rest hstops
  have htighter : ∀ level, phrase.tighter? = some level → level.Stops rest := by
    intro level hlevel
    exact hstops.tighter hlevel
  have hstop : ∀ token ∈ rest.head?, phrase.operator? token = none := by
    intro token htoken
    have hextended := hstops.not_extendedBy htight htoken
    rw [hoperator] at hextended
    simpa using hextended
  rw [hchained rest htighter, readChainRest_stop hstop]

/-- One more operator and operand. -/
theorem Chained.binary (hoperand : operand.Advances) {left right : List String} {word : String}
    {op : BinaryOp} {leftExpr rightExpr : Expr} (htight : phrase.tighter? = some tight)
    (hop : phrase.operator? word = some op) (hleft : Chained phrase operand left leftExpr)
    (hright : Settled tight operand right rightExpr) :
    Chained phrase operand (left ++ word :: right) (.binary op leftExpr rightExpr) := by
  intro rest hstops
  have hword : ∀ level, phrase.tighter? = some level →
      level.Stops (word :: (right ++ rest)) := by
    intro level hlevel
    exact Phrase.stops_cons (Phrase.goesOn_of_operator? hlevel hop)
  have htokens : left ++ word :: right ++ rest = left ++ word :: (right ++ rest) := by simp
  -- behind the left operand the loop stands at the operator
  rw [htokens, hleft _ hword]
  exact readChainRest_operator hoperand hop (hright rest (hstops tight htight))

/-- The reader for items reads the values up to the closing bracket, and a colon stands behind
their first expression if they are entries of a dictionary. -/
def Itemized (inner : InnerReader) (bracket : Bracket) (item : Reader α) (entries : Bool)
    (tokens : List String) (values : List α) : Prop :=
  ∀ rest, readItems bracket item (tokens ++ "]" :: rest) = .ok values rest ∧
    ∃ first after, inner .value (tokens ++ "]" :: rest) = .ok first after ∧
      after.head?.any isColon = entries

/-- Where the readers stand behind a phrase. -/
def ReadBack (known : KnownNames) (phrase : Phrase) (tokens : List String) (expr : Expr) : Prop :=
  let inner := readExpr known
  match phrase with
  | .disjunction => ∀ context,
      Chained .disjunction (readConjunction inner known context) tokens expr
  | .conjunction => ∀ context,
      Chained .conjunction (readNegation (readComparison (readSum inner known) context)) tokens expr
  | .negation => ∀ context,
      Settled .negation (readNegation (readComparison (readSum inner known) context)) tokens expr
  | .comparison => ∀ context,
      Settled .comparison (readComparison (readSum inner known) context) tokens expr
  | .sum => ∀ context, Chained .sum (readProduct inner known context) tokens expr
  | .product => ∀ context,
      Chained .product (readSigned (readIndexed inner known context)) tokens expr
  | .signed => ∀ context,
      Settled .signed (readSigned (readIndexed inner known context)) tokens expr
  | .indexed => ∀ context rest, readIndexed inner known context (tokens ++ rest) =
      readIndices inner rest.length expr rest
  | .elements => ∃ elements, expr = .list elements ∧
      Itemized inner .list (inner .value) false tokens elements
  | .entries => ∃ entries, expr = .dict entries ∧
      Itemized inner .dict (readEntry inner) true tokens entries
  | .call => False

end Standing

section Rules

variable {known : KnownNames} {tokens : List String} {expr : Expr}

/-! ### Brackets and parentheses -/

theorem readExpr_of_readBack (hread : ReadBack known .disjunction tokens expr) (context : Context)
    {rest : List String} (hstops : Phrase.disjunction.Stops rest) :
    readExpr known context (tokens ++ rest) = .ok expr rest := by
  rw [readExpr_eq]
  exact (hread context).settled rfl (fun _ => rfl) rest hstops

/-- All tokens are one expression. -/
theorem readAll_of_readBack (hread : ReadBack known .disjunction tokens expr) (context : Context) :
    readAll (readExpr known) context tokens = .ok (some expr) := by
  have hwhole := readExpr_of_readBack hread context (Phrase.stops_nil _)
  rw [List.append_nil] at hwhole
  simp [readAll, hwhole]

/-- Parentheses that match are read up to their end. -/
theorem readGroup_of_balanced (hbalanced : Balanced tokens) (hne : tokens ≠ [])
    (rest : List String) :
    readGroup inner (tokens ++ ")" :: rest) =
      match readAll inner .name tokens with
      | .error cause => .error cause rest
      | .ok none => .error .invalidParentheses rest
      | .ok (some expr) =>
          if expr.isCombination then .ok expr rest else .error .misplacedParentheses rest := by
  have hclosing : splitAtClosing "(" ")" 0 (")" :: rest) = some ([], rest) := by
    simp [splitAtClosing]
  -- the search for the closing parenthesis passes over the tokens
  have hsplit : splitAtClosing "(" ")" 0 (tokens ++ ")" :: rest) = some (tokens, rest) := by
    rw [hbalanced, hclosing, Option.map_some, List.append_nil]
  unfold readGroup
  rw [hsplit]
  split
  next heq => cases heq
  next heq =>
    cases heq
    exact absurd rfl hne
  next heq =>
    cases heq
    rfl

theorem readGroup_of_readBack (hread : ReadBack known .disjunction tokens expr)
    (hbalanced : Balanced tokens) (hne : tokens ≠ []) (hcombination : expr.isCombination = true)
    (rest : List String) :
    readGroup (readExpr known) (tokens ++ ")" :: rest) = .ok expr rest := by
  rw [readGroup_of_balanced hbalanced hne, readAll_of_readBack hread]
  simp [hcombination]

theorem ReadBack.index {container index : List String} {containerExpr indexExpr : Expr}
    (hcontainer : ReadBack known .indexed container containerExpr)
    (hindex : ReadBack known .disjunction index indexExpr) :
    ReadBack known .indexed (container ++ "[" :: (index ++ ["]"]))
      (.index containerExpr indexExpr) := by
  intro context rest
  have htokens : container ++ "[" :: (index ++ ["]"]) ++ rest =
      container ++ "[" :: (index ++ "]" :: rest) := by simp
  rw [htokens, hcontainer]
  exact readIndices_bracket (readExpr_advances known)
    (readExpr_of_readBack hindex .value (Phrase.stops_cons rfl))

/-! ### Items -/

theorem ReadBack.lastElement (hread : ReadBack known .disjunction tokens expr) :
    ReadBack known .elements tokens (.list [expr]) := by
  refine ⟨[expr], rfl, fun rest => ?_⟩
  have hfirst : readExpr known .value (tokens ++ "]" :: rest) = .ok expr ("]" :: rest) :=
    readExpr_of_readBack hread .value (Phrase.stops_cons rfl)
  exact ⟨readItems_last hfirst, expr, _, hfirst, rfl⟩

theorem ReadBack.element {more : List String} {elements : List Expr}
    (hread : ReadBack known .disjunction tokens expr)
    (hmore : ReadBack known .elements more (.list elements)) :
    ReadBack known .elements (tokens ++ "|" :: more) (.list (expr :: elements)) := by
  refine ⟨expr :: elements, rfl, fun rest => ?_⟩
  obtain ⟨_, heq, hitems⟩ := hmore
  cases heq
  have htokens : tokens ++ "|" :: more ++ "]" :: rest = tokens ++ "|" :: (more ++ "]" :: rest) := by
    simp
  have hfirst : readExpr known .value (tokens ++ "|" :: (more ++ "]" :: rest)) =
      .ok expr ("|" :: (more ++ "]" :: rest)) :=
    readExpr_of_readBack hread .value (Phrase.stops_cons rfl)
  rw [htokens, readItems_bar (readExpr_advances known .value) hfirst, (hitems rest).1]
  exact ⟨rfl, expr, _, hfirst, rfl⟩

section Entries

variable {key value : List String} {colon : String} {keyExpr valueExpr : Expr}

/-- A key, a colon and a value before something that does not go on with the value. -/
theorem readEntry_of_readBack (hcolon : isColon colon = true)
    (hkey : ReadBack known .disjunction key keyExpr)
    (hvalue : ReadBack known .disjunction value valueExpr) {rest : List String}
    (hstops : Phrase.disjunction.Stops rest) :
    readExpr known .value (key ++ colon :: (value ++ rest)) =
        .ok keyExpr (colon :: (value ++ rest)) ∧
      readEntry (readExpr known) (key ++ colon :: (value ++ rest)) =
        .ok (keyExpr, valueExpr) rest := by
  have hcolonStops : Phrase.disjunction.Stops (colon :: (value ++ rest)) :=
    Phrase.stops_cons (Phrase.disjunction_goesOn_of_isColon hcolon)
  have hfirst := readExpr_of_readBack hkey .value hcolonStops
  exact ⟨hfirst, readEntry_colon hcolon hfirst (readExpr_of_readBack hvalue .value hstops)⟩

theorem ReadBack.lastEntry (hcolon : isColon colon = true)
    (hkey : ReadBack known .disjunction key keyExpr)
    (hvalue : ReadBack known .disjunction value valueExpr) :
    ReadBack known .entries (key ++ colon :: value) (.dict [(keyExpr, valueExpr)]) := by
  refine ⟨[(keyExpr, valueExpr)], rfl, fun rest => ?_⟩
  have htokens : key ++ colon :: value ++ "]" :: rest = key ++ colon :: (value ++ "]" :: rest) := by
    simp
  have hstops : Phrase.disjunction.Stops ("]" :: rest) := Phrase.stops_cons rfl
  obtain ⟨hfirst, hentry⟩ := readEntry_of_readBack hcolon hkey hvalue hstops
  rw [htokens]
  exact ⟨readItems_last hentry, keyExpr, _, hfirst, by simp [hcolon]⟩

theorem ReadBack.entry {more : List String} {entries : List (Expr × Expr)}
    (hcolon : isColon colon = true) (hkey : ReadBack known .disjunction key keyExpr)
    (hvalue : ReadBack known .disjunction value valueExpr)
    (hmore : ReadBack known .entries more (.dict entries)) :
    ReadBack known .entries (key ++ colon :: (value ++ "|" :: more))
      (.dict ((keyExpr, valueExpr) :: entries)) := by
  refine ⟨(keyExpr, valueExpr) :: entries, rfl, fun rest => ?_⟩
  obtain ⟨_, heq, hitems⟩ := hmore
  cases heq
  have htokens : key ++ colon :: (value ++ "|" :: more) ++ "]" :: rest =
      key ++ colon :: (value ++ "|" :: (more ++ "]" :: rest)) := by simp
  have hstops : Phrase.disjunction.Stops ("|" :: (more ++ "]" :: rest)) := Phrase.stops_cons rfl
  -- the first entry is read up to the bar, and the others behind it
  obtain ⟨hfirst, hentry⟩ := readEntry_of_readBack hcolon hkey hvalue hstops
  rw [htokens, readItems_bar (readEntry_advances (readExpr_advances known)) hentry,
    (hitems rest).1]
  exact ⟨rfl, keyExpr, _, hfirst, by simp [hcolon]⟩

end Entries

/-! ### Primary expressions -/

theorem ReadBack.of_readPrimary
    (hprimary : ∀ context rest,
      readPrimary (readExpr known) known context (tokens ++ rest) = .ok expr rest) :
    ReadBack known .indexed tokens expr := by
  intro context rest
  rw [readIndexed, hprimary, andThen_ok]

theorem ReadBack.word {word : String} (hprinted : PrintedAs known word expr) :
    ReadBack known .indexed [word] expr := by
  refine .of_readPrimary fun context rest => ?_
  rcases hprinted.literal?_or_variable with
    hliteral | ⟨hliteral, hkeyword, hidentifier, hknown, rfl⟩
  · simp [readPrimary, hliteral]
  · have hmap : isMapWord word = false := by
      simp only [isKeyword, Bool.or_eq_false_iff] at hkeyword
      simp [hkeyword]
    have hopening : word ≠ "(" := hprinted.ne_sign (by decide)
    have hbracket : word ≠ "[" := hprinted.ne_sign (by decide)
    simp [readPrimary, hliteral, hopening, hmap, hbracket, resolveWord_of_known hknown hidentifier]

theorem ReadBack.group (hread : ReadBack known .disjunction tokens expr)
    (hbalanced : Balanced tokens) (hne : tokens ≠ []) (hcombination : expr.isCombination = true) :
    ReadBack known .indexed ("(" :: (tokens ++ [")"])) expr := by
  refine .of_readPrimary fun context rest => ?_
  have htokens : "(" :: (tokens ++ [")"]) ++ rest = "(" :: (tokens ++ ")" :: rest) := by simp
  have hliteral : literal? "(" = none := rfl
  rw [htokens, readPrimary, hliteral]
  exact readGroup_of_readBack hread hbalanced hne hcombination rest

theorem literal?_of_isMapWord {word : String} (hword : isMapWord word = true) :
    literal? word = none ∧ word ≠ "(" := by
  rcases eq_of_isMapWord hword with rfl | rfl | rfl
  all_goals exact ⟨rfl, by decide⟩

theorem readPrimary_map {word : String} (hword : isMapWord word = true) (context : Context)
    (behind : List String) :
    readPrimary (readExpr known) known context (word :: "[" :: behind) =
      readDict (readExpr known) behind := by
  obtain ⟨hliteral, hopening⟩ := literal?_of_isMapWord hword
  simp [readPrimary, hliteral, hopening, hword]

theorem readPrimary_bracket (context : Context) (behind : List String) :
    readPrimary (readExpr known) known context ("[" :: behind) =
      readBracketed (readExpr known) behind := by
  have hliteral : literal? "[" = none := rfl
  have hmap : isMapWord "[" = false := rfl
  simp [readPrimary, hliteral, hmap]

theorem ReadBack.list {elements : List Expr}
    (hread : ReadBack known .elements tokens (.list elements))
    (hhead : ∀ rest, (tokens ++ rest).head? ≠ some "]") :
    ReadBack known .indexed ("[" :: (tokens ++ ["]"])) (.list elements) := by
  refine .of_readPrimary fun context rest => ?_
  obtain ⟨_, heq, hitems⟩ := hread
  cases heq
  obtain ⟨hlist, first, after, hfirst, hcolon⟩ := hitems rest
  have htokens : "[" :: (tokens ++ ["]"]) ++ rest = "[" :: (tokens ++ "]" :: rest) := by simp
  rw [htokens, readPrimary_bracket, readBracketed_eq_list (hhead _) hfirst hcolon, hlist]
  rfl

theorem ReadBack.dict {entries : List (Expr × Expr)}
    (hread : ReadBack known .entries tokens (.dict entries))
    (hhead : ∀ rest, (tokens ++ rest).head? ≠ some "]") :
    ReadBack known .indexed ("[" :: (tokens ++ ["]"])) (.dict entries) := by
  refine .of_readPrimary fun context rest => ?_
  obtain ⟨_, heq, hitems⟩ := hread
  cases heq
  obtain ⟨hdict, first, after, hfirst, hcolon⟩ := hitems rest
  have htokens : "[" :: (tokens ++ ["]"]) ++ rest = "[" :: (tokens ++ "]" :: rest) := by simp
  rw [htokens, readPrimary_bracket, readBracketed_eq_dict (hhead _) hfirst hcolon, readEntries,
    hdict]
  rfl

theorem ReadBack.mapDict {word : String} {entries : List (Expr × Expr)}
    (hword : isMapWord word = true) (hread : ReadBack known .entries tokens (.dict entries))
    (hhead : ∀ rest, (tokens ++ rest).head? ≠ some "]") :
    ReadBack known .indexed (word :: "[" :: (tokens ++ ["]"])) (.dict entries) := by
  refine .of_readPrimary fun context rest => ?_
  obtain ⟨_, heq, hitems⟩ := hread
  cases heq
  have htokens : word :: "[" :: (tokens ++ ["]"]) ++ rest =
      word :: "[" :: (tokens ++ "]" :: rest) := by simp
  rw [htokens, readPrimary_map hword, readDict_eq_readEntries (hhead _), readEntries,
    (hitems rest).1]
  rfl

theorem ReadBack.emptyList : ReadBack known .indexed ["[", "]"] (.list []) := by
  refine .of_readPrimary fun context rest => ?_
  exact readPrimary_bracket context ("]" :: rest)

theorem ReadBack.emptyDict {word : String} (hword : isMapWord word = true) :
    ReadBack known .indexed [word, "[", "]"] (.dict []) := by
  refine .of_readPrimary fun context rest => ?_
  exact readPrimary_map hword context ("]" :: rest)

/-! ### Levels -/

variable {phrase tight : Phrase}

theorem ReadBack.loosen (htight : phrase.tighter? = some tight)
    (hstarts : ∃ first rest, tokens = first :: rest ∧ tight.canStart first = true)
    (hread : ReadBack known tight tokens expr) : ReadBack known phrase tokens expr := by
  obtain ⟨first, behind, rfl, hstart⟩ := hstarts
  -- three kinds of levels: chains enter their loop, the prefix levels look at the first token, and
  -- a comparison looks at the token behind its left side
  cases phrase with
  | disjunction =>
      cases htight
      exact fun context => ((hread context).settled rfl fun _ => rfl).chained rfl
  | conjunction =>
      cases htight
      exact fun context => (hread context).chained rfl
  | negation =>
      cases htight
      intro context rest hstops
      rw [List.cons_append, readNegation, Phrase.isNotWord_of_canStart hstart]
      exact hread context rest (hstops.tighter rfl)
  | comparison =>
      cases htight
      intro context rest hstops
      have hsum :
          readSum (readExpr known) known context (first :: behind ++ rest) = .ok expr rest :=
        (hread context).settled rfl (fun _ => rfl) rest (hstops.tighter rfl)
      rw [readComparison, hsum, andThen_ok]
      cases rest with
      | nil => rfl
      | cons token after =>
          have hcomparison : BinaryOp.ofComparisonWord? token = none := by
            simpa [Phrase.extendedBy] using hstops.not_extendedBy rfl rfl
          simp [hcomparison]
  | sum =>
      cases htight
      exact fun context => ((hread context).settled rfl fun _ => rfl).chained rfl
  | product =>
      cases htight
      exact fun context => (hread context).chained rfl
  | signed =>
      cases htight
      intro context rest hstops
      have hsign : UnaryOp.ofSign? first = none := Phrase.ofSign?_of_canStart hstart
      have hbracket : rest.head? ≠ some "[" := by
        intro hhead
        have hgoesOn := hstops "[" hhead
        cases hgoesOn
      have hindexed : readIndexed (readExpr known) known context (first :: behind ++ rest) =
          .ok expr rest := by
        rw [hread context rest, readIndices_stop hbracket]
      rw [← hindexed, List.cons_append, readSigned_of_not_sign hsign]
  | indexed => cases htight
  | elements => cases htight
  | entries => cases htight
  | call => cases htight

theorem ReadBack.binary {left right : List String} {word : String} {op : BinaryOp}
    {leftExpr rightExpr : Expr} (htight : phrase.tighter? = some tight)
    (hop : phrase.operator? word = some op) (hleft : ReadBack known phrase left leftExpr)
    (hright : ReadBack known tight right rightExpr) :
    ReadBack known phrase (left ++ word :: right) (.binary op leftExpr rightExpr) := by
  have hadvances := readExpr_advances known
  have hnegation (context : Context) :
      (readNegation (readComparison (readSum (readExpr known) known) context)).Advances :=
    readNegation_advances (readComparison_advances (readSum_advances hadvances known) context)
  have hsigned (context : Context) :
      (readSigned (readIndexed (readExpr known) known context)).Advances :=
    readSigned_advances (readIndexed_advances hadvances known context)
  cases phrase with
  | disjunction =>
      cases htight
      -- the loop stands behind the left operand, and goes round once more
      exact fun context => (hleft context).binary (readChain_advances (hnegation context)) rfl hop
        ((hright context).settled rfl fun _ => rfl)
  | conjunction =>
      cases htight
      exact fun context => (hleft context).binary (hnegation context) rfl hop (hright context)
  | sum =>
      cases htight
      exact fun context => (hleft context).binary (readChain_advances (hsigned context)) rfl hop
        ((hright context).settled rfl fun _ => rfl)
  | product =>
      cases htight
      exact fun context => (hleft context).binary (hsigned context) rfl hop (hright context)
  | _ => cases hop

theorem ReadBack.compare {left right : List String} {word : String} {op : BinaryOp}
    {leftExpr rightExpr : Expr} (hop : BinaryOp.ofComparisonWord? word = some op)
    (hleft : ReadBack known .sum left leftExpr) (hright : ReadBack known .sum right rightExpr) :
    ReadBack known .comparison (left ++ word :: right) (.binary op leftExpr rightExpr) := by
  intro context rest hstops
  have htokens : left ++ word :: right ++ rest = left ++ word :: (right ++ rest) := by simp
  have hword : Phrase.sum.Stops (word :: (right ++ rest)) :=
    Phrase.stops_cons (Phrase.sum_goesOn_of_ofComparisonWord? hop)
  -- the sum on the left stops at the comparison word
  have hsum : readSum (readExpr known) known context (left ++ word :: (right ++ rest)) =
      .ok leftExpr (word :: (right ++ rest)) :=
    (hleft context).settled rfl (fun _ => rfl) _ hword
  have hvalue : readSum (readExpr known) known .value (right ++ rest) = .ok rightExpr rest :=
    (hright .value).settled rfl (fun _ => rfl) rest (hstops.tighter rfl)
  rw [htokens, readComparison, hsum, andThen_ok]
  simp only [hop, hvalue]
  rfl

theorem ReadBack.not {word : String} (hword : isNotWord word = true)
    (hread : ReadBack known .negation tokens expr) :
    ReadBack known .negation (word :: tokens) (.unary .not expr) := by
  intro context rest hstops
  rw [List.cons_append, readNegation, hword, if_pos rfl, hread context rest hstops]
  rfl

theorem ReadBack.sign {word : String} {op : UnaryOp} (hop : UnaryOp.ofSign? word = some op)
    (hne : tokens ≠ []) (hread : ReadBack known .signed tokens expr) :
    ReadBack known .signed (word :: tokens) (.unary op expr) := by
  obtain ⟨first, behind, rfl⟩ := List.exists_cons_of_ne_nil hne
  intro context rest hstops
  have hoperand := hread context rest hstops
  rw [List.cons_append] at hoperand
  rw [List.cons_append, List.cons_append, readSigned, hop]
  simp only [hoperand]
  rfl

end Rules

/-! ## All printings -/

variable {known : KnownNames} {phrase : Phrase} {context : Context} {tokens : List String}
  {expr : Expr}

theorem Derives.ne_nil (hderives : Derives (.ofPrinter known) phrase context tokens expr) :
    tokens ≠ [] := by
  obtain ⟨first, rest, rfl, -⟩ := hderives.starts
  exact List.cons_ne_nil first rest

theorem Derives.head?_ne (hderives : Derives (.ofPrinter known) phrase context tokens expr)
    (rest : List String) : (tokens ++ rest).head? ≠ some "]" :=
  Phrase.head?_ne_of_starts hderives.starts rest

theorem Derives.readBack (hderives : Derives (.ofPrinter known) phrase context tokens expr) :
    ReadBack known phrase tokens expr := by
  induction hderives with
  | loosen htight hderives ih => exact ih.loosen htight hderives.starts
  | binary htight hop hleft hright ihLeft ihRight => exact ihLeft.binary htight hop ihRight
  | compare hop hleft hright ihLeft ihRight => exact ihLeft.compare hop ihRight
  | not hword hderives ih => exact ih.not hword
  | sign hop hderives ih => exact ih.sign hop hderives.ne_nil
  | index hcontainer hindex ihContainer ihIndex => exact ihContainer.index ihIndex
  | word hspells => exact .word hspells
  | group hcombination hderives ih =>
      exact ih.group hderives.balanced hderives.ne_nil hcombination
  | callGroup hargs hderives ih => exact ih.elim
  | callee hfunc => exact hfunc.elim
  | argument hcall harg ihCall ihArg => exact ihCall.elim
  | emptyList => exact .emptyList
  | list helements ih => exact ih.list helements.head?_ne
  | lastElement helement ih => exact ih.lastElement
  | element helement hmore ihElement ihMore => exact ihElement.element ihMore
  | emptyDict hword => exact .emptyDict hword
  | mapDict hword hentries ih => exact .mapDict hword ih hentries.head?_ne
  | dict hentries ih => exact ih.dict hentries.head?_ne
  | lastEntry hcolon hkey hvalue ihKey ihValue => exact .lastEntry hcolon ihKey ihValue
  | entry hcolon hkey hvalue hmore ihKey ihValue ihMore =>
      exact .entry hcolon ihKey ihValue ihMore

/-- **Reading undoes printing.**  In both contexts a printed expression is read back as it was:
from all of the tokens, and before everything that does not go on with it. -/
theorem readExpr_of_printed {known : KnownNames} {printed : Context} {tokens : List String}
    {expr : Expr} (hprinted : Derives (.ofPrinter known) .disjunction printed tokens expr)
    (context : Context) :
    readExpr known context tokens = .ok expr [] ∧
      readWhole known context tokens = .ok (some expr) ∧
      ∀ rest, Phrase.disjunction.Stops rest →
        readExpr known context (tokens ++ rest) = .ok expr rest := by
  have hread : ReadBack known .disjunction tokens expr := hprinted.readBack
  have hbefore {rest : List String} (hstops : Phrase.disjunction.Stops rest) :
      readExpr known context (tokens ++ rest) = .ok expr rest :=
    readExpr_of_readBack hread context hstops
  have hall := hbefore (Phrase.stops_nil _)
  rw [List.append_nil] at hall
  exact ⟨hall, readAll_of_readBack hread context, fun rest hstops => hbefore hstops⟩

/-- A negated product of a signed name and a group, joined with a name. -/
theorem readExpr_of_printed_product :
    let known : KnownNames := .ofWords ["a"]
    let tokens := ["not", "-", "a", "*", "(", "a", "-", "1", ")", "or", "a"]
    let expr : Expr := .binary .or
      (.unary .not (.binary .mul (.unary .neg (.ident "a"))
        (.binary .sub (.ident "a") (.number "1")))) (.ident "a")
    Derives (.ofPrinter known) .disjunction .value tokens expr ∧
      readExpr known .value tokens = .ok expr [] ∧
      readWhole known .value tokens = .ok (some expr) ∧
      ∀ rest, Phrase.disjunction.Stops rest →
        readExpr known .value (tokens ++ rest) = .ok expr rest := by
  intro known tokens expr
  have hname (context : Context) : Derives (.ofPrinter known) .signed context ["a"] (.ident "a") :=
    .loosen rfl (.word (.ident (by decide +kernel) (by decide +kernel) (by decide +kernel)))
  have hnumber : Derives (.ofPrinter known) .signed .name ["1"] (.number "1") :=
    .loosen rfl (.word (.number (by decide +kernel)))
  have hdifference : Derives (.ofPrinter known) .sum .name (["a"] ++ "-" :: ["1"])
      (.binary .sub (.ident "a") (.number "1")) :=
    .binary rfl rfl (.loosen rfl (.loosen rfl (hname .name))) (.loosen rfl hnumber)
  have hgroup : Derives (.ofPrinter known) .signed .value ["(", "a", "-", "1", ")"]
      (.binary .sub (.ident "a") (.number "1")) :=
    .loosen rfl (.group rfl (.loosen rfl (.loosen rfl (.loosen rfl (.loosen rfl hdifference)))))
  have hproduct : Derives (.ofPrinter known) .product .value
      (["-", "a"] ++ "*" :: ["(", "a", "-", "1", ")"]) (.binary .mul (.unary .neg (.ident "a"))
        (.binary .sub (.ident "a") (.number "1"))) :=
    .binary rfl rfl (.loosen rfl (.sign rfl (hname .value))) hgroup
  have hnegation : Derives (.ofPrinter known) .negation .value
      ("not" :: "-" :: "a" :: "*" :: ["(", "a", "-", "1", ")"])
      (.unary .not (.binary .mul (.unary .neg (.ident "a"))
        (.binary .sub (.ident "a") (.number "1")))) :=
    .not rfl (.loosen rfl (.loosen rfl (.loosen rfl hproduct)))
  have hoperand : Derives (.ofPrinter known) .conjunction .value ["a"] (.ident "a") :=
    .loosen rfl (.loosen rfl (.loosen rfl (.loosen rfl (.loosen rfl (hname .value)))))
  have hprinted : Derives (.ofPrinter known) .disjunction .value
      (["not", "-", "a", "*", "(", "a", "-", "1", ")"] ++ "or" :: ["a"]) expr :=
    .binary rfl rfl (.loosen rfl (.loosen rfl hnegation)) hoperand
  exact ⟨hprinted, readExpr_of_printed hprinted .value⟩

end LineScript
