import LineScript.Expr.Read

/-!
# The grammar of expressions

The grammar as a relation between token lists and expressions, independent of the readers.  It is
a ladder of levels over a lexicon, which says what single words are:

    disjunction := disjunction or conjunction | conjunction
    conjunction := conjunction and negation | negation
    negation    := not negation | comparison
    comparison  := sum compare sum | sum
    sum         := sum ("+" | "-") product | product
    product     := product ("*" | "/") signed | signed
    signed      := ("+" | "-") signed | indexed
    indexed     := indexed "[" disjunction "]" | word | "(" combination ")" | list | dict

`Derives lexicon phrase context tokens expr` says that the tokens, each of them used once and in
order, are a phrase of the given kind that stands for the expression.  The context is that of the
words which no bracket encloses; the relation shows where it changes.

The relation follows the ladder: `loosen` takes a phrase for one of the next level above, and each
of the other rules adds one operator, bracket or item.  Chains combine from the left in the grammar,
as in the rules above.  A list or a dictionary is a phrase of items between brackets; the phrases
`elements` and `entries` are what stands between them.  A call has no place on the ladder: it is a
phrase of its own, a name with values behind it, and only parentheses enclose it.

Two lexica matter.  In `Lexicon.ofReader` every token is a word, as it is for the readers.  In
`Lexicon.ofPrinter` only those tokens are words that have one meaning in both contexts: literals,
and known names that are no words of the language.
-/

namespace LineScript

/-- The kinds of phrases: the levels from the loosest to the tightest, and what stands inside of
brackets. -/
inductive Phrase where
  | disjunction | conjunction | negation | comparison | sum | product | signed | indexed
  /-- The elements of a list, with bars between them. -/
  | elements
  /-- The entries of a dictionary, with bars between them. -/
  | entries
  /-- A name and the arguments behind it. -/
  | call
  deriving DecidableEq, Repr

namespace Phrase

/-- The next tighter level. -/
def tighter? : Phrase → Option Phrase
  | .disjunction => some .conjunction
  | .conjunction => some .negation
  | .negation => some .comparison
  | .comparison => some .sum
  | .sum => some .product
  | .product => some .signed
  | .signed => some .indexed
  | .indexed | .elements | .entries | .call => none

/-- The operator that a word spells between operands of a level that combines from the left. -/
def operator? : Phrase → String → Option BinaryOp
  | .disjunction => fun word => if isOrWord word then some .or else none
  | .conjunction => fun word => if isAndWord word then some .and else none
  | .sum => BinaryOp.ofSumWord?
  | .product => BinaryOp.ofProductWord?
  | _ => fun _ => none

end Phrase

/-- What single words are. -/
structure Lexicon where
  /-- The expression that a word is in a context. -/
  spells : Context → String → Expr → Prop
  /-- Names that can be called inside of parentheses. -/
  callable : String → Prop

/-- The phrases of the grammar and the expressions that they stand for. -/
inductive Derives (lexicon : Lexicon) : Phrase → Context → List String → Expr → Prop
  /-- A phrase of a level is one of every looser level. -/
  | loosen {phrase tight : Phrase} {context : Context} {tokens : List String} {expr : Expr}
      (htight : phrase.tighter? = some tight)
      (hderives : Derives lexicon tight context tokens expr) :
      Derives lexicon phrase context tokens expr
  /-- Operators of one level combine from the left. -/
  | binary {phrase tight : Phrase} {context : Context} {left right : List String} {word : String}
      {op : BinaryOp} {leftExpr rightExpr : Expr}
      (htight : phrase.tighter? = some tight) (hop : phrase.operator? word = some op)
      (hleft : Derives lexicon phrase context left leftExpr)
      (hright : Derives lexicon tight context right rightExpr) :
      Derives lexicon phrase context (left ++ word :: right) (.binary op leftExpr rightExpr)
  /-- Comparisons do not chain, and their right side is a value. -/
  | compare {context : Context} {left right : List String} {word : String} {op : BinaryOp}
      {leftExpr rightExpr : Expr} (hop : BinaryOp.ofComparisonWord? word = some op)
      (hleft : Derives lexicon .sum context left leftExpr)
      (hright : Derives lexicon .sum .value right rightExpr) :
      Derives lexicon .comparison context (left ++ word :: right) (.binary op leftExpr rightExpr)
  | not {context : Context} {word : String} {tokens : List String} {expr : Expr}
      (hword : isNotWord word = true) (hderives : Derives lexicon .negation context tokens expr) :
      Derives lexicon .negation context (word :: tokens) (.unary .not expr)
  | sign {context : Context} {word : String} {op : UnaryOp} {tokens : List String} {expr : Expr}
      (hop : UnaryOp.ofSign? word = some op)
      (hderives : Derives lexicon .signed context tokens expr) :
      Derives lexicon .signed context (word :: tokens) (.unary op expr)
  | index {context : Context} {container index : List String} {containerExpr indexExpr : Expr}
      (hcontainer : Derives lexicon .indexed context container containerExpr)
      (hindex : Derives lexicon .disjunction .value index indexExpr) :
      Derives lexicon .indexed context (container ++ "[" :: (index ++ ["]"]))
        (.index containerExpr indexExpr)
  | word {context : Context} {word : String} {expr : Expr}
      (hspells : lexicon.spells context word expr) :
      Derives lexicon .indexed context [word] expr
  /-- Parentheses enclose a combination, whose words are names. -/
  | group {context : Context} {tokens : List String} {expr : Expr}
      (hcombination : expr.isCombination = true)
      (hderives : Derives lexicon .disjunction .name tokens expr) :
      Derives lexicon .indexed context ("(" :: (tokens ++ [")"])) expr
  | callGroup {context : Context} {tokens : List String} {func : String} {args : List Expr}
      (hargs : args ≠ []) (hderives : Derives lexicon .call .name tokens (.call func args)) :
      Derives lexicon .indexed context ("(" :: (tokens ++ [")"])) (.call func args)
  | callee {func : String} (hfunc : lexicon.callable func) :
      Derives lexicon .call .name [func] (.call func [])
  | argument {func : String} {front tokens : List String} {args : List Expr} {arg : Expr}
      (hcall : Derives lexicon .call .name front (.call func args))
      (harg : Derives lexicon .disjunction .value tokens arg) :
      Derives lexicon .call .name (front ++ tokens) (.call func (args ++ [arg]))
  | emptyList {context : Context} : Derives lexicon .indexed context ["[", "]"] (.list [])
  | list {context : Context} {tokens : List String} {elements : List Expr}
      (helements : Derives lexicon .elements .value tokens (.list elements)) :
      Derives lexicon .indexed context ("[" :: (tokens ++ ["]"])) (.list elements)
  | lastElement {tokens : List String} {expr : Expr}
      (helement : Derives lexicon .disjunction .value tokens expr) :
      Derives lexicon .elements .value tokens (.list [expr])
  | element {tokens more : List String} {expr : Expr} {elements : List Expr}
      (helement : Derives lexicon .disjunction .value tokens expr)
      (hmore : Derives lexicon .elements .value more (.list elements)) :
      Derives lexicon .elements .value (tokens ++ "|" :: more) (.list (expr :: elements))
  | emptyDict {context : Context} {word : String} (hword : isMapWord word = true) :
      Derives lexicon .indexed context [word, "[", "]"] (.dict [])
  | mapDict {context : Context} {word : String} {tokens : List String}
      {entries : List (Expr × Expr)} (hword : isMapWord word = true)
      (hentries : Derives lexicon .entries .value tokens (.dict entries)) :
      Derives lexicon .indexed context (word :: "[" :: (tokens ++ ["]"])) (.dict entries)
  | dict {context : Context} {tokens : List String} {entries : List (Expr × Expr)}
      (hentries : Derives lexicon .entries .value tokens (.dict entries)) :
      Derives lexicon .indexed context ("[" :: (tokens ++ ["]"])) (.dict entries)
  | lastEntry {key value : List String} {colon : String} {keyExpr valueExpr : Expr}
      (hcolon : isColon colon = true) (hkey : Derives lexicon .disjunction .value key keyExpr)
      (hvalue : Derives lexicon .disjunction .value value valueExpr) :
      Derives lexicon .entries .value (key ++ colon :: value) (.dict [(keyExpr, valueExpr)])
  | entry {key value more : List String} {colon : String} {keyExpr valueExpr : Expr}
      {entries : List (Expr × Expr)} (hcolon : isColon colon = true)
      (hkey : Derives lexicon .disjunction .value key keyExpr)
      (hvalue : Derives lexicon .disjunction .value value valueExpr)
      (hmore : Derives lexicon .entries .value more (.dict entries)) :
      Derives lexicon .entries .value (key ++ colon :: (value ++ "|" :: more))
        (.dict ((keyExpr, valueExpr) :: entries))

section Levels

variable {lexicon : Lexicon} {context : Context} {tokens : List String} {expr : Expr}

theorem Derives.sum_of_indexed (hderives : Derives lexicon .indexed context tokens expr) :
    Derives lexicon .sum context tokens expr :=
  .loosen rfl (.loosen rfl (.loosen rfl hderives))

theorem Derives.disjunction_of_sum (hderives : Derives lexicon .sum context tokens expr) :
    Derives lexicon .disjunction context tokens expr :=
  .loosen rfl (.loosen rfl (.loosen rfl (.loosen rfl hderives)))

end Levels

/-! ## The two lexica -/

/-- What a token is for the readers: a literal, or a word of which the context and the known names
decide whether it is a variable.  Only the brackets that open something are no words. -/
inductive ReadAs (known : KnownNames) (context : Context) (word : String) : Expr → Prop
  | literal {expr : Expr} (hliteral : literal? word = some expr) : ReadAs known context word expr
  | variable (hliteral : literal? word = none) (hopens : word ≠ "(" ∧ word ≠ "[")
      (hidentifier : isIdentifier word = true)
      (hknown : context = .name ∨ known.contains word = true) :
      ReadAs known context word (.ident word)
  | text (hliteral : literal? word = none) (hopens : word ≠ "(" ∧ word ≠ "[")
      (hvariable : ¬ (isIdentifier word = true ∧
        (context = .name ∨ known.contains word = true))) :
      ReadAs known context word (.str word false)

theorem readAs_resolveWord {known : KnownNames} {context : Context} {word : String}
    (hliteral : literal? word = none) (hopens : word ≠ "(" ∧ word ≠ "[") :
    ReadAs known context word (resolveWord known context word) := by
  unfold resolveWord
  split
  next hvariable =>
    simp only [Bool.and_eq_true, Bool.or_eq_true, beq_iff_eq] at hvariable
    exact .variable hliteral hopens hvariable.1 hvariable.2
  next hvariable =>
    simp only [Bool.and_eq_true, Bool.or_eq_true, beq_iff_eq] at hvariable
    exact .text hliteral hopens hvariable

/-- Whether a word belongs to the language itself. -/
def isKeyword (word : String) : Bool :=
  (ActionWord.ofSpelling? word).isSome || isBlockEnd word || isInWord word ||
    isTrueWord word || isFalseWord word || isNoneWord word || isMapWord word ||
    isOrWord word || isAndWord word || isNotWord word ||
    (BinaryOp.ofComparisonWord? word).isSome

/-- The words that an expression can be printed as. -/
inductive PrintedAs (known : KnownNames) : String → Expr → Prop
  | number {text : String} (hnumeric : isNumericWord text = true) :
      PrintedAs known text (.number text)
  | trueWord {word : String} (hword : isTrueWord word = true) : PrintedAs known word (.bool true)
  | falseWord {word : String} (hword : isFalseWord word = true) : PrintedAs known word (.bool false)
  | noneWord {word : String} (hword : isNoneWord word = true) : PrintedAs known word .none
  | quoted {text : String} (htext : text ≠ "") :
      PrintedAs known ("\x60\x60" ++ text ++ "\x60\x60") (.str text true)
  | ident {name : String} (hidentifier : isIdentifier name = true)
      (hknown : known.contains name = true) (hkeyword : isKeyword name = false) :
      PrintedAs known name (.ident name)

namespace Lexicon

/-- The lexicon of the readers.  What is called is a single identifier. -/
def ofReader (known : KnownNames) : Lexicon where
  spells := ReadAs known
  callable := fun func => literal? func = none ∧ isIdentifier func = true

/-- The lexicon of printed expressions, which have no calls. -/
def ofPrinter (known : KnownNames) : Lexicon where
  spells := fun _ => PrintedAs known
  callable := fun _ => False

end Lexicon

end LineScript
