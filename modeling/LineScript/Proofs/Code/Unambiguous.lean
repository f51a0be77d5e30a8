import LineScript.Proofs.Code.Characters
import LineScript.Proofs.Text.UniqueReading

/-!
# The code of expressions is unambiguous

In the code of an expression brackets, signs and blanks have several uses each.  Parentheses
enclose operators, negations and arguments, brackets enclose lists and indices, and a sign is an
operator or belongs to a numeral.  Still no two expressions share their code, but for the two
differences that do not show in it at all.

Main statement: expressions have the same code exactly if they are the same but for the quotes of
texts and for names as keys (`code_eq_code_iff`).

## Strategy

The proof reads two codes with something behind them from the left (`UniqueBelow`), by induction on
the length of the text.  An induction on the expressions would not do: two expressions are compared
at a time, and nothing says yet that they have the same form.

* **What is behind.**  Behind an expression stands one of a few signs (`Ends`), which continue
  neither a numeral nor a name.  So a code shows where it ends, and it is the claim about the rest
  that makes the next step possible.
* **The form.**  The first character of a code tells which kind of expression it belongs to
  (`chars_base_inj` has a case for each form), and then the operands are read one after the other.
* **Indices.**  They are written behind the expression that they belong to, so that nothing in front
  tells how many there are.  `Expr.base` and `Expr.positions` take them off: the base is compared
  first, and indices are read until something else than a bracket stands there (`indexChars_inj`).
* **Parentheses.**  More is needed behind one: `not` may be a variable in front of an operator
  there, and a sign may belong to a numeral.  In both cases what is left of the two codes behind the
  word or the sign differs (`chars_binary_ne_unary`).
-/

namespace LineScript

/-! ## Texts in quotes -/

namespace Code

theorem escapes_escapeDouble : Escapes escapeDouble '"' where
  inj := by
    intro c d rest rest' heq
    unfold escapeDouble at heq
    split at heq <;> split at heq <;> grind
  append_ne := by
    intro c rest rest'
    unfold escapeDouble
    split <;> simp_all

end Code

/-! ## What comes behind an expression -/

/-- The signs that stand behind expressions. -/
def endSigns : List Char := " )],:\x7d".toList

/-- The text is empty or begins with a sign that stands behind expressions. -/
def Ends (rest : List Char) : Prop := ∀ c ∈ rest.head?, c ∈ endSigns

/-- The text is empty, or goes on with an index, or begins with a sign that stands behind
expressions. -/
def Stops (rest : List Char) : Prop := ∀ c ∈ rest.head?, c ∈ '[' :: endSigns

variable {rest rest' : List Char}

theorem Ends.stops (hends : Ends rest) : Stops rest :=
  fun c hc => List.mem_cons_of_mem '[' (hends c hc)

theorem ends_cons {c : Char} (hc : c ∈ endSigns) (rest : List Char) : Ends (c :: rest) := by
  rintro _ ⟨⟩
  exact hc

theorem stops_cons {c : Char} (hc : c ∈ '[' :: endSigns) (rest : List Char) :
    Stops (c :: rest) := by
  rintro _ ⟨⟩
  exact hc

theorem Stops.not_isNameCharacter (hstops : Stops rest) :
    ∀ c ∈ rest.head?, isNameCharacter c = false := by
  have hsigns : ('[' :: endSigns).all Text.outsideNames.contains = true := by
    decide
  exact fun c hc => LineScript.not_isNameCharacter (List.all_eq_true.mp hsigns c (hstops c hc))

theorem Stops.not_isNumeralCharacter (hstops : Stops rest) :
    ∀ c ∈ rest.head?, isNumeralCharacter c = false := by
  have hsigns : ('[' :: endSigns).any isNumeralCharacter = false := by
    decide
  exact fun c hc => Bool.eq_false_iff.mpr (List.any_eq_false.mp hsigns c (hstops c hc))

/-! ## Unique reading -/

/-- In a text shorter than a bound there is at most one expression that something stands behind. -/
def UniqueBelow (bound : Nat) : Prop :=
  ∀ (expr expr' : Expr) (rest rest' : List Char), expr.Spelled → expr'.Spelled →
    Ends rest → Ends rest' → (expr.chars ++ rest).length < bound →
    expr.chars ++ rest = expr'.chars ++ rest' → expr.normal = expr'.normal ∧ rest = rest'

section Items

variable {α β : Type} {write : α → List Char} {value : α → β} {close : Char}

/-- What stands behind an item with others behind it: a bracket, or a comma and the others. -/
def behindItem (write : α → List Char) (close : Char) (items : List α) (rest : List Char) :
    List Char :=
  match items with
  | [] => close :: rest
  | item :: more =>
      ',' :: ' ' :: (Expr.separated ((item :: more).map write) ++ close :: rest)

theorem separated_cons (item : α) (items : List α) (rest : List Char) :
    Expr.separated ((item :: items).map write) ++ close :: rest =
      write item ++ behindItem write close items rest := by
  cases items with
  | nil => simp [Expr.separated, behindItem]
  | cons next more => simp [Expr.separated, behindItem, List.intercalate_cons_cons]

theorem ends_behindItem (hclose : close ∈ endSigns) (items : List α) (rest : List Char) :
    Ends (behindItem write close items rest) := by
  cases items with
  | nil => exact ends_cons hclose rest
  | cons item more => exact ends_cons (by decide) _

/-- Items with commas between them and a bracket behind them are unique if each of them is. -/
theorem separated_inj {items items' : List α} {bound : Nat} (hclose : close ∈ endSigns)
    (hcomma : close ≠ ',') (hhead : ∀ item ∈ items, (write item).head?.any (· != close))
    (hhead' : ∀ item ∈ items', (write item).head?.any (· != close))
    (hitem : ∀ item ∈ items, ∀ item' ∈ items', ∀ rest rest', Ends rest → Ends rest' →
      (write item ++ rest).length < bound → write item ++ rest = write item' ++ rest' →
      value item = value item' ∧ rest = rest')
    (hlength : (Expr.separated (items.map write) ++ close :: rest).length < bound)
    (heq : Expr.separated (items.map write) ++ close :: rest =
      Expr.separated (items'.map write) ++ close :: rest') :
    items.map value = items'.map value ∧ rest = rest' := by
  -- no item begins like the bracket behind the last one
  have hnonempty {item : α} {more behind : List Char}
      (hitem : (write item).head?.any (· != close) = true) :
      write item ++ behind ≠ close :: more := by
    intro hsame
    cases hwrite : write item with
    | nil =>
        rw [hwrite] at hitem
        cases hitem
    | cons c text =>
        rw [hwrite, List.cons_append] at hsame
        rw [hwrite, (List.cons.inj hsame).1] at hitem
        simp at hitem
  induction items generalizing items' with
  | nil =>
      cases items' with
      | nil => exact ⟨rfl, (List.cons.inj heq).2⟩
      | cons item' more' =>
          rw [separated_cons] at heq
          exact absurd heq.symm (hnonempty (hhead' item' List.mem_cons_self))
  | cons item more ih =>
      cases items' with
      | nil =>
          rw [separated_cons] at heq
          exact absurd heq (hnonempty (hhead item List.mem_cons_self))
      | cons item' more' =>
          rw [separated_cons] at hlength heq
          rw [separated_cons] at heq
          -- the first items are read alike, and so is what is behind them
          obtain ⟨hvalue, hbehind⟩ := hitem item List.mem_cons_self item' List.mem_cons_self _ _
            (ends_behindItem hclose more rest) (ends_behindItem hclose more' rest') hlength heq
          rw [List.map_cons, List.map_cons, hvalue]
          cases more with
          | nil =>
              cases more' with
              | nil => exact ⟨rfl, (List.cons.inj hbehind).2⟩
              | cons => exact absurd (List.cons.inj hbehind).1 hcomma
          | cons next others =>
              cases more' with
              | nil => exact absurd (List.cons.inj hbehind).1.symm hcomma
              | cons next' others' =>
                  have hothers := (List.cons.inj (List.cons.inj hbehind).2).2
                  have hshorter : (Expr.separated ((next :: others).map write) ++
                      close :: rest).length < bound := by
                    simp only [behindItem, List.length_append, List.length_cons] at hlength ⊢
                    omega
                  -- behind the comma the rest is shorter than the whole text
                  have hsame := ih (List.forall_mem_cons.mp hhead).2
                    (List.forall_mem_cons.mp hhead').2
                    (fun x hx y hy => hitem x (List.mem_cons_of_mem _ hx) y
                      (List.mem_cons_of_mem _ hy)) hshorter hothers
                  exact ⟨congrArg _ hsame.1, hsame.2⟩

end Items

/-! ## Codes of one kind -/

section Kinds

variable {expr expr' : Expr} {bound : Nat}

/-! ### Numerals -/

/-- A numeral ends with its last character of a numeral. -/
theorem chars_number_inj {text text' : String} (htext : isNumericWord text = true)
    (htext' : isNumericWord text' = true) (hrest : Stops rest) (hrest' : Stops rest')
    (heq : text.toList ++ rest = text'.toList ++ rest') : text = text' ∧ rest = rest' := by
  obtain ⟨hsame, hbehind⟩ := run_inj (Text.isNumeralCharacter_of_isNumeric htext)
    (Text.isNumeralCharacter_of_isNumeric htext') hrest.not_isNumeralCharacter
    hrest'.not_isNumeralCharacter heq
  exact ⟨String.toList_inj.mp hsame, hbehind⟩

/-! ### Lists and dictionaries -/

theorem Expr.Spelled.head?_ne {close : Char} (hexpr : expr.Spelled)
    (hclose : Opening.of? close = Option.none) : expr.chars.head?.any (· != close) = true := by
  obtain ⟨c, more, hchars, hopening⟩ := hexpr.exists_head
  have hne : c ≠ close := by
    rintro rfl
    rw [hclose] at hopening
    cases hopening
  rw [hchars]
  simpa using hne

/-- Expressions with commas between them and a bracket behind them are unique. -/
theorem UniqueBelow.separated (hunique : UniqueBelow bound) {exprs exprs' : List Expr}
    {close : Char} (hclose : close ∈ endSigns ∧ close ≠ ',' ∧ Opening.of? close = none)
    (hexprs : ∀ expr ∈ exprs, expr.Spelled) (hexprs' : ∀ expr ∈ exprs', expr.Spelled)
    (hlength : (Expr.separated (exprs.map Expr.chars) ++ close :: rest).length < bound)
    (heq : Expr.separated (exprs.map Expr.chars) ++ close :: rest =
      Expr.separated (exprs'.map Expr.chars) ++ close :: rest') :
    Expr.normals exprs = Expr.normals exprs' ∧ rest = rest' := by
  obtain ⟨hend, hcomma, hopening⟩ := hclose
  rw [Expr.normals_eq_map, Expr.normals_eq_map]
  exact separated_inj hend hcomma (fun expr hexpr => (hexprs expr hexpr).head?_ne hopening)
    (fun expr hexpr => (hexprs' expr hexpr).head?_ne hopening)
    (fun expr hexpr expr' hexpr' rest rest' =>
      hunique expr expr' rest rest' (hexprs expr hexpr) (hexprs' expr' hexpr'))
    hlength heq

theorem Expr.Spelled.asKey (hexpr : expr.Spelled) : expr.asKey.Spelled := by
  cases hexpr with
  | ident hname => exact .str _ false
  | _ => constructor <;> assumption

theorem chars_list_inj (hunique : UniqueBelow bound) {elements elements' : List Expr}
    (helements : ∀ element ∈ elements, element.Spelled)
    (helements' : ∀ element ∈ elements', element.Spelled)
    (hlength : ((Expr.list elements).chars ++ rest).length ≤ bound)
    (heq : (Expr.list elements).chars ++ rest = (Expr.list elements').chars ++ rest') :
    (Expr.list elements).normal = (Expr.list elements').normal ∧ rest = rest' := by
  simp only [Expr.chars_list, List.cons_append, List.append_assoc, List.nil_append,
    List.length_cons, List.cons.injEq, true_and] at hlength heq
  have hbracket : Opening.of? ']' = none := Opening.of?_eq_none (by decide)
  obtain ⟨hsame, hbehind⟩ := hunique.separated ⟨by decide, by decide, hbracket⟩ helements helements'
    (Nat.lt_of_succ_le hlength) heq
  exact ⟨congrArg Expr.list hsame, hbehind⟩

/-- An entry is a key and a value, each of which something stands behind. -/
theorem UniqueBelow.entry (hunique : UniqueBelow bound) {entry entry' : Expr × Expr}
    (hkey : entry.1.Spelled) (hkey' : entry'.1.Spelled) (hvalue : entry.2.Spelled)
    (hvalue' : entry'.2.Spelled) (hrest : Ends rest) (hrest' : Ends rest')
    (hlength : (Expr.entryChars entry ++ rest).length < bound)
    (heq : Expr.entryChars entry ++ rest = Expr.entryChars entry' ++ rest') :
    Expr.normalEntry entry = Expr.normalEntry entry' ∧ rest = rest' := by
  simp only [Expr.entryChars, List.append_assoc, List.cons_append] at hlength heq
  -- the key ends at the colon
  obtain ⟨hkeys, hbehind⟩ := hunique _ _ _ _ hkey.asKey hkey'.asKey (ends_cons (by decide) _)
    (ends_cons (by decide) _) hlength heq
  have hshorter : (entry.2.chars ++ rest).length < bound := by
    simp only [List.length_append, List.length_cons] at hlength ⊢
    omega
  simp only [List.cons.injEq, true_and] at hbehind
  obtain ⟨hvalues, hrests⟩ := hunique _ _ _ _ hvalue hvalue' hrest hrest' hshorter hbehind
  rw [Expr.normalEntry, Expr.normalEntry, hkeys, hvalues]
  exact ⟨rfl, hrests⟩

theorem chars_dict_inj (hunique : UniqueBelow bound) {entries entries' : List (Expr × Expr)}
    (hkeys : ∀ entry ∈ entries, entry.1.Spelled) (hvalues : ∀ entry ∈ entries, entry.2.Spelled)
    (hkeys' : ∀ entry ∈ entries', entry.1.Spelled)
    (hvalues' : ∀ entry ∈ entries', entry.2.Spelled)
    (hlength : ((Expr.dict entries).chars ++ rest).length ≤ bound)
    (heq : (Expr.dict entries).chars ++ rest = (Expr.dict entries').chars ++ rest') :
    (Expr.dict entries).normal = (Expr.dict entries').normal ∧ rest = rest' := by
  simp only [Expr.chars_dict, List.cons_append, List.append_assoc, List.nil_append,
    List.length_cons, List.cons.injEq, true_and] at hlength heq
  have hbrace : Opening.of? '\x7d' = none := Opening.of?_eq_none (by decide)
  -- no entry begins with the closing brace
  have hhead {entry : Expr × Expr} (hkey : entry.1.Spelled) :
      (Expr.entryChars entry).head?.any (· != '\x7d') = true := by
    obtain ⟨c, more, hchars, hopening⟩ := hkey.asKey.exists_head
    have hany := hkey.asKey.head?_ne hbrace
    rw [hchars] at hany
    rwa [Expr.entryChars, hchars]
  obtain ⟨hsame, hbehind⟩ := separated_inj (by decide) (by decide)
    (fun entry hentry => hhead (hkeys entry hentry))
    (fun entry hentry => hhead (hkeys' entry hentry))
    (fun entry hentry entry' hentry' rest rest' =>
      hunique.entry (hkeys entry hentry) (hkeys' entry' hentry') (hvalues entry hentry)
        (hvalues' entry' hentry'))
    (Nat.lt_of_succ_le hlength) heq
  rw [Expr.normal, Expr.normal, Expr.normalEntries_eq_map, Expr.normalEntries_eq_map, hsame]
  exact ⟨rfl, hbehind⟩

/-! ### Names -/

/-- The word that an expression is in the code, if it is one. -/
def Expr.word? : Expr → Option String
  | .bool true => some "True"
  | .bool false => some "False"
  | .none => some "None"
  | .ident name => some name
  | _ => Option.none

/-- The expression that a word is in the code. -/
def Expr.ofWord : String → Expr
  | "True" => .bool true
  | "False" => .bool false
  | "None" => .none
  | name => .ident name

theorem Expr.chars_of_word? {word : String} (hword : expr.word? = some word) :
    expr.chars = word.toList := by
  unfold word? at hword
  split at hword
  case h_5 => cases hword
  all_goals
    cases hword
    rfl

/-- What begins with a name and has no index is a word or a call. -/
theorem Expr.word?_or_call_of_opening (hopening : expr.opening = .name)
    (hbase : ∀ container position, expr ≠ .index container position) :
    (∃ word, expr.word? = some word) ∨ ∃ func args, expr = .call func args := by
  cases expr with
  | bool value => cases value <;> exact .inl ⟨_, rfl⟩
  | none | ident => exact .inl ⟨_, rfl⟩
  | call func args => exact .inr ⟨func, args, rfl⟩
  | index container position => exact absurd rfl (hbase container position)
  | _ => cases hopening

namespace Expr.Spelled

variable {word : String}

theorem isNameCharacter_of_word? (hexpr : expr.Spelled) (hword : expr.word? = some word) :
    OnlyOf (fun c => isNameCharacter c = true) word := by
  cases hexpr with
  | bool value =>
      cases value
      all_goals
        cases hword
        decide
  | none =>
      cases hword
      decide
  | ident hname =>
      cases hword
      exact isNameCharacter_of_isIdentifier hname.1
  | _ => cases hword

/-- No name is a constant. -/
theorem eq_ofWord (hexpr : expr.Spelled) (hword : expr.word? = some word) :
    expr = ofWord word := by
  cases hexpr with
  | bool value =>
      cases value
      all_goals
        cases hword
        rfl
  | none =>
      cases hword
      rfl
  | ident hname =>
      cases hword
      have hconstant := hname.2
      unfold ofWord
      split
      case h_4 => rfl
      all_goals exact absurd (by decide) hconstant
  | _ => cases hword

end Expr.Spelled

theorem not_isNameCharacter_parenthesis (more : List Char) :
    ∀ c ∈ ('(' :: more).head?, isNameCharacter c = false := by
  rintro _ ⟨⟩
  exact not_isNameCharacter (by decide)

theorem chars_word_inj {word word' : String} (hexpr : expr.Spelled) (hexpr' : expr'.Spelled)
    (hword : expr.word? = some word) (hword' : expr'.word? = some word') (hrest : Stops rest)
    (hrest' : Stops rest') (heq : expr.chars ++ rest = expr'.chars ++ rest') :
    expr.normal = expr'.normal ∧ rest = rest' := by
  rw [Expr.chars_of_word? hword, Expr.chars_of_word? hword'] at heq
  obtain ⟨hsame, hbehind⟩ := run_inj (hexpr.isNameCharacter_of_word? hword)
    (hexpr'.isNameCharacter_of_word? hword') hrest.not_isNameCharacter hrest'.not_isNameCharacter
    heq
  rw [hexpr.eq_ofWord hword, hexpr'.eq_ofWord hword', String.toList_inj.mp hsame]
  exact ⟨rfl, hbehind⟩

/-- No parenthesis stands behind a word that is no call. -/
theorem chars_word_ne_call {word func : String} {args : List Expr} (hexpr : expr.Spelled)
    (hword : expr.word? = some word) (hfunc : IsVariableName func) (hrest : Stops rest) :
    expr.chars ++ rest ≠ (Expr.call func args).chars ++ rest' := by
  intro heq
  rw [Expr.chars_of_word? hword, Expr.chars_call, List.append_assoc] at heq
  obtain ⟨-, hbehind⟩ := run_inj (hexpr.isNameCharacter_of_word? hword)
    (isNameCharacter_of_isIdentifier hfunc.1) hrest.not_isNameCharacter
    (not_isNameCharacter_parenthesis _) heq
  rw [hbehind] at hrest
  exact absurd (hrest '(' rfl) (by decide)

theorem chars_call_inj (hunique : UniqueBelow bound) {func func' : String} {args args' : List Expr}
    (hfunc : IsVariableName func) (hfunc' : IsVariableName func')
    (hargs : ∀ arg ∈ args, arg.Spelled) (hargs' : ∀ arg ∈ args', arg.Spelled)
    (hlength : ((Expr.call func args).chars ++ rest).length ≤ bound)
    (heq : (Expr.call func args).chars ++ rest = (Expr.call func' args').chars ++ rest') :
    (Expr.call func args).normal = (Expr.call func' args').normal ∧ rest = rest' := by
  simp only [Expr.chars_call, List.cons_append, List.append_assoc, List.nil_append] at hlength heq
  -- the name of the function ends at the parenthesis
  obtain ⟨hnames, hbehind⟩ := run_inj (isNameCharacter_of_isIdentifier hfunc.1)
    (isNameCharacter_of_isIdentifier hfunc'.1) (not_isNameCharacter_parenthesis _)
    (not_isNameCharacter_parenthesis _) heq
  have hshorter : (Expr.separated (args.map Expr.chars) ++ ')' :: rest).length < bound := by
    simp only [List.length_append, List.length_cons] at hlength ⊢
    omega
  have hparenthesis : Opening.of? ')' = none := Opening.of?_eq_none (by decide)
  obtain ⟨hsame, hrests⟩ := hunique.separated ⟨by decide, by decide, hparenthesis⟩ hargs hargs'
    hshorter (List.cons.inj hbehind).2
  rw [Expr.normal, Expr.normal, String.toList_inj.mp hnames, hsame]
  exact ⟨rfl, hrests⟩

/-! ### Operators -/

theorem BinaryOp.symbol_inj {op op' : BinaryOp} (hsymbol : op.symbol = op'.symbol) : op = op' := by
  cases op <;> cases op' <;> first | rfl | exact absurd hsymbol (by decide)

theorem chars_binary_inj (hunique : UniqueBelow bound) {op op' : BinaryOp}
    {left left' right right' : Expr} (hleft : left.Spelled) (hleft' : left'.Spelled)
    (hright : right.Spelled) (hright' : right'.Spelled)
    (hlength : ((Expr.binary op left right).chars ++ rest).length ≤ bound)
    (heq : (Expr.binary op left right).chars ++ rest =
      (Expr.binary op' left' right').chars ++ rest') :
    (Expr.binary op left right).normal = (Expr.binary op' left' right').normal ∧
      rest = rest' := by
  simp only [Expr.chars_binary, List.cons_append, List.append_assoc, List.nil_append,
    List.length_cons, List.cons.injEq, true_and] at hlength heq
  obtain ⟨hlefts, hbehind⟩ := hunique _ _ _ _ hleft hleft' (ends_cons (by decide) _)
    (ends_cons (by decide) _) (Nat.lt_of_succ_le hlength) heq
  have hsymbol (op : BinaryOp) : OnlyOf (fun c => (c != ' ') = true) op.symbol := by
    cases op <;> decide
  have hblank (more : List Char) : ∀ c ∈ (' ' :: more).head?, (c != ' ') = false := by
    rintro _ ⟨⟩
    rfl
  -- the symbol ends at the blank behind it
  obtain ⟨hsymbols, hrights⟩ := run_inj (hsymbol op) (hsymbol op') (hblank _) (hblank _)
    (List.cons.inj hbehind).2
  have hshorter : (right.chars ++ ')' :: rest).length < bound := by
    simp only [List.length_append, List.length_cons] at hlength ⊢
    omega
  obtain ⟨hsame, hrests⟩ := hunique _ _ _ _ hright hright' (ends_cons (by decide) _)
    (ends_cons (by decide) _) hshorter (List.cons.inj hrights).2
  rw [Expr.normal, Expr.normal, hlefts, BinaryOp.symbol_inj (String.toList_inj.mp hsymbols), hsame]
  exact ⟨rfl, (List.cons.inj hrests).2⟩

/-- A word that is also an operator is still a name. -/
theorem spelled_ident_of_mem {word : String} (hword : word ∈ ["not", "or", "and"]) :
    (Expr.ident word).Spelled := by
  have hwords : ∀ word ∈ ["not", "or", "and"], isIdentifier word = true ∧
      word ∉ ["True", "False", "None"] := by
    decide
  exact .ident (hwords word hword)

/-- What stands in front of a binary operator does not end with a parenthesis behind it. -/
theorem UniqueBelow.append_blank_ne (hunique : UniqueBelow bound) (hexpr : expr.Spelled)
    (hexpr' : expr'.Spelled) (hlength : (expr.chars ++ ' ' :: rest).length < bound) :
    expr.chars ++ ' ' :: rest ≠ expr'.chars ++ ')' :: rest' := by
  intro heq
  have hbehind := (hunique _ _ _ _ hexpr hexpr' (ends_cons (by decide) _)
    (ends_cons (by decide) _) hlength heq).2
  exact absurd (List.cons.inj hbehind).1 (by decide)

/-- An operator between two expressions is none in front of one. -/
theorem chars_binary_ne_unary (hunique : UniqueBelow bound) {op : BinaryOp} {op' : UnaryOp}
    {left right operand : Expr} (hleft : left.Spelled) (hoperand : operand.Spelled)
    (hlength : ((Expr.binary op left right).chars ++ rest).length ≤ bound) :
    (Expr.binary op left right).chars ++ rest ≠ (Expr.unary op' operand).chars ++ rest' := by
  intro heq
  simp only [Expr.chars_binary, Expr.chars_unary, List.cons_append, List.append_assoc,
    List.nil_append, List.length_cons, List.cons.injEq, true_and] at hlength heq
  have hlength := Nat.lt_of_succ_le hlength
  have hsign {sign : Char} (hsign : sign = '+' ∨ sign = '-')
      (heq : left.chars ++ ' ' :: (op.symbol.toList ++ ' ' :: (right.chars ++ ')' :: rest)) =
        sign :: (operand.chars ++ ')' :: rest')) : False := by
    -- without the sign, the left operand would end at the parenthesis
    obtain ⟨unsigned, hunsigned, hchars⟩ := hleft.exists_unsigned hsign heq
    refine hunique.append_blank_ne hunsigned hoperand ?_ hchars
    have hlengths := congrArg List.length heq
    rw [← hchars, List.length_cons] at hlengths
    omega
  cases op' with
  | neg => exact hsign (.inr rfl) heq
  | plus => exact hsign (.inl rfl) heq
  | not =>
      -- the left operand is the word, and what stands behind it begins with the operator
      obtain ⟨-, hbehind⟩ := hunique left (.ident "not") _ (' ' :: (operand.chars ++ ')' :: rest'))
        hleft (spelled_ident_of_mem (by decide)) (ends_cons (by decide) _)
        (ends_cons (by decide) _) hlength heq
      have hoperator := (List.cons.inj hbehind).2
      by_cases hop : op ≠ .or ∧ op ≠ .and
      · exact hoperand.append_ne_symbol hop _ hoperator.symm
      · have hword : op.symbol ∈ ["not", "or", "and"] := by
          cases op with
          | or | and => decide
          | _ => exact absurd ⟨nofun, nofun⟩ hop
        have hchars : (Expr.ident op.symbol).chars = op.symbol.toList := rfl
        refine hunique.append_blank_ne (spelled_ident_of_mem hword) hoperand ?_ hoperator
        simp only [hchars, List.length_append, List.length_cons] at hlength ⊢
        omega

theorem chars_unary_inj (hunique : UniqueBelow bound) {op op' : UnaryOp} {operand operand' : Expr}
    (hoperand : operand.Spelled) (hoperand' : operand'.Spelled)
    (hlength : ((Expr.unary op operand).chars ++ rest).length ≤ bound)
    (heq : (Expr.unary op operand).chars ++ rest = (Expr.unary op' operand').chars ++ rest') :
    (Expr.unary op operand).normal = (Expr.unary op' operand').normal ∧ rest = rest' := by
  simp only [Expr.chars_unary, List.cons_append, List.append_assoc, List.nil_append,
    List.length_cons, List.cons.injEq, true_and] at hlength heq
  -- the three signs differ in their first characters
  obtain rfl : op = op' := by
    cases op <;> cases op' <;> first | rfl | exact absurd (List.cons.inj heq).1 (by decide)
  have hshorter : (operand.chars ++ ')' :: rest).length < bound := by
    simp only [List.length_append, List.length_cons] at hlength ⊢
    omega
  obtain ⟨hsame, hbehind⟩ := hunique _ _ _ _ hoperand hoperand' (ends_cons (by decide) _)
    (ends_cons (by decide) _) hshorter (List.append_cancel_left heq)
  rw [Expr.normal, Expr.normal, hsame]
  exact ⟨rfl, (List.cons.inj hbehind).2⟩

/-! ### All kinds -/

theorem opening_eq (hexpr : expr.Spelled) (hexpr' : expr'.Spelled)
    (heq : expr.chars ++ rest = expr'.chars ++ rest') : expr.opening = expr'.opening := by
  obtain ⟨c, more, hchars, hopening⟩ := hexpr.exists_head
  obtain ⟨c', more', hchars', hopening'⟩ := hexpr'.exists_head
  rw [hchars, hchars', List.cons_append, List.cons_append] at heq
  rw [(List.cons.inj heq).1, hopening'] at hopening
  exact (Option.some.inj hopening).symm

/-- Constants, variables and calls are unique, also where an index stands behind them. -/
theorem chars_names_inj (hunique : UniqueBelow bound) (hexpr : expr.Spelled)
    (hexpr' : expr'.Spelled) (hbase : ∀ container position, expr ≠ .index container position)
    (hbase' : ∀ container position, expr' ≠ .index container position)
    (hopening : expr.opening = .name) (hopening' : expr'.opening = .name) (hrest : Stops rest)
    (hrest' : Stops rest') (hlength : (expr.chars ++ rest).length ≤ bound)
    (heq : expr.chars ++ rest = expr'.chars ++ rest') :
    expr.normal = expr'.normal ∧ rest = rest' := by
  rcases Expr.word?_or_call_of_opening hopening hbase with ⟨word, hword⟩ | ⟨func, args, rfl⟩
  · rcases Expr.word?_or_call_of_opening hopening' hbase' with ⟨word', hword'⟩ | ⟨func, args, rfl⟩
    · -- two words without arguments
      exact chars_word_inj hexpr hexpr' hword hword' hrest hrest' heq
    · cases hexpr' with
      -- a parenthesis stands behind the name of a call, and behind no word
      | call hfunc hargs => exact absurd heq (chars_word_ne_call hexpr hword hfunc hrest)
  · cases hexpr with
    | call hfunc hargs =>
        rcases Expr.word?_or_call_of_opening hopening' hbase' with
          ⟨word', hword'⟩ | ⟨func', args', rfl⟩
        · exact absurd heq.symm (chars_word_ne_call hexpr' hword' hfunc hrest')
        · cases hexpr' with
          | call hfunc' hargs' => exact chars_call_inj hunique hfunc hfunc' hargs hargs' hlength heq

/-- Expressions without an index of their own are unique, also where an index stands behind them. -/
theorem chars_base_inj (hunique : UniqueBelow bound) (hexpr : expr.Spelled) (hexpr' : expr'.Spelled)
    (hbase : ∀ container position, expr ≠ .index container position)
    (hbase' : ∀ container position, expr' ≠ .index container position) (hrest : Stops rest)
    (hrest' : Stops rest') (hlength : (expr.chars ++ rest).length ≤ bound)
    (heq : expr.chars ++ rest = expr'.chars ++ rest') :
    expr.normal = expr'.normal ∧ rest = rest' := by
  have hopening := opening_eq hexpr hexpr' heq
  by_cases hname : expr.opening = .name
  · exact chars_names_inj hunique hexpr hexpr' hbase hbase' hname (hopening ▸ hname) hrest hrest'
      hlength heq
  cases hexpr with
  | bool | none | ident | call => exact absurd rfl hname
  | index => exact absurd rfl (hbase _ _)
  | number htext =>
      cases hexpr' with
      | number htext' =>
          obtain ⟨rfl, hrests⟩ := chars_number_inj htext htext' hrest hrest' heq
          exact ⟨rfl, hrests⟩
      | index => exact absurd rfl (hbase' _ _)
      | _ => cases hopening
  | str text quoted =>
      cases hexpr' with
      | str text' quoted' =>
          simp only [Expr.chars_str, List.cons_append, List.append_assoc, List.nil_append,
            List.cons.injEq, true_and] at heq
          obtain ⟨hsame, hrests⟩ := Code.escapes_escapeDouble.escaped_inj heq
          rw [Expr.normal, Expr.normal, String.toList_inj.mp hsame]
          exact ⟨rfl, hrests⟩
      | index => exact absurd rfl (hbase' _ _)
      | _ => cases hopening
  | binary op hleft hright =>
      cases hexpr' with
      | binary op' hleft' hright' =>
          exact chars_binary_inj hunique hleft hleft' hright hright' hlength heq
      | unary op' hoperand =>
          exact absurd heq (chars_binary_ne_unary hunique hleft hoperand hlength)
      | index => exact absurd rfl (hbase' _ _)
      | _ => cases hopening
  | unary op hoperand =>
      cases hexpr' with
      | unary op' hoperand' => exact chars_unary_inj hunique hoperand hoperand' hlength heq
      | binary op' hleft hright =>
          exact absurd heq.symm (chars_binary_ne_unary hunique hleft hoperand (heq ▸ hlength))
      | index => exact absurd rfl (hbase' _ _)
      | _ => cases hopening
  | list helements =>
      cases hexpr' with
      | list helements' => exact chars_list_inj hunique helements helements' hlength heq
      | index => exact absurd rfl (hbase' _ _)
      | _ => cases hopening
  | dict hkeys hvalues =>
      cases hexpr' with
      | dict hkeys' hvalues' =>
          exact chars_dict_inj hunique hkeys hvalues hkeys' hvalues' hlength heq
      | index => exact absurd rfl (hbase' _ _)
      | _ => cases hopening

/-! ### Indices -/

theorem stops_indexChars (positions : List Expr) (hrest : Ends rest) :
    Stops (Expr.indexChars positions ++ rest) := by
  cases positions with
  | nil => exact hrest.stops
  | cons position more => exact stops_cons (by decide) _

theorem indexChars_inj (hunique : UniqueBelow bound) {positions positions' : List Expr}
    (hpositions : ∀ position ∈ positions, position.Spelled)
    (hpositions' : ∀ position ∈ positions', position.Spelled) (hrest : Ends rest)
    (hrest' : Ends rest') (hlength : (Expr.indexChars positions ++ rest).length < bound)
    (heq : Expr.indexChars positions ++ rest = Expr.indexChars positions' ++ rest') :
    positions.map Expr.normal = positions'.map Expr.normal ∧ rest = rest' := by
  have hno {rest more : List Char} (hrest : Ends rest) : rest ≠ '[' :: more := by
    rintro rfl
    exact absurd (hrest '[' rfl) (by decide)
  have hcons (position : Expr) (more : List Expr) (rest : List Char) :
      Expr.indexChars (position :: more) ++ rest =
        '[' :: (position.chars ++ ']' :: (Expr.indexChars more ++ rest)) := by
    simp [Expr.indexChars]
  induction positions generalizing positions' with
  | nil =>
      cases positions' with
      | nil => exact ⟨rfl, heq⟩
      | cons position' more' =>
          rw [hcons] at heq
          -- what stands behind the indices is no bracket
          exact absurd heq (hno hrest)
  | cons position more ih =>
      cases positions' with
      | nil =>
          rw [hcons] at heq
          exact absurd heq.symm (hno hrest')
      | cons position' more' =>
          rw [hcons] at hlength heq
          rw [hcons] at heq
          obtain ⟨hposition, hmore⟩ := List.forall_mem_cons.mp hpositions
          obtain ⟨hposition', hmore'⟩ := List.forall_mem_cons.mp hpositions'
          obtain ⟨hsame, hbehind⟩ := hunique _ _ _ _ hposition hposition'
            (ends_cons (by decide) _) (ends_cons (by decide) _)
            (Nat.lt_of_succ_lt hlength) (List.cons.inj heq).2
          have hshorter : (Expr.indexChars more ++ rest).length < bound := by
            simp only [List.length_append, List.length_cons] at hlength ⊢
            omega
          obtain ⟨hothers, hrests⟩ := ih hmore hmore' hshorter (List.cons.inj hbehind).2
          rw [List.map_cons, List.map_cons, hsame, hothers]
          exact ⟨rfl, hrests⟩

end Kinds

/-! ## All expressions -/

/-- Unique expressions in shorter texts make those in longer ones unique. -/
theorem UniqueBelow.succ {bound : Nat} (hunique : UniqueBelow bound) : UniqueBelow (bound + 1) := by
  intro expr expr' rest rest' hexpr hexpr' hrest hrest' hlength heq
  rw [← expr.indexed_base, Expr.chars_indexed, List.append_assoc] at hlength heq
  rw [← expr'.indexed_base, Expr.chars_indexed, List.append_assoc] at heq
  rw [← expr.indexed_base, Expr.spelled_indexed] at hexpr
  rw [← expr'.indexed_base, Expr.spelled_indexed] at hexpr'
  -- what stands in front of the indices is read first
  obtain ⟨hbase, hpositions⟩ := chars_base_inj hunique hexpr.1 hexpr'.1 expr.base_ne_index
    expr'.base_ne_index (stops_indexChars _ hrest) (stops_indexChars _ hrest')
    (Nat.le_of_lt_succ hlength) heq
  -- the indices have at least one character in front of them
  have hshorter : (Expr.indexChars expr.positions ++ rest).length < bound := by
    obtain ⟨c, more, hchars, -⟩ := hexpr.1.exists_head
    rw [hchars] at hlength
    simp only [List.length_append, List.length_cons] at hlength ⊢
    omega
  obtain ⟨hsame, hrests⟩ := indexChars_inj hunique hexpr.2 hexpr'.2 hrest hrest' hshorter hpositions
  refine ⟨?_, hrests⟩
  rw [← expr.indexed_base, ← expr'.indexed_base, Expr.normal_indexed, Expr.normal_indexed, hbase,
    hsame]

theorem uniqueBelow (bound : Nat) : UniqueBelow bound := by
  induction bound with
  | zero => exact fun _ _ _ _ _ _ _ _ hlength => absurd hlength (Nat.not_lt_zero _)
  | succ bound ih => exact ih.succ

/-- **The code of expressions is unambiguous.**  Expressions whose numerals and names are such have
the same code exactly if they are the same but for the quotes of texts and for names as keys. -/
theorem code_eq_code_iff {expr expr' : Expr} (hexpr : expr.Spelled) (hexpr' : expr'.Spelled) :
    expr.code = expr'.code ↔ expr.normal = expr'.normal := by
  constructor
  · intro hcode
    have hends : Ends [] := nofun
    have hchars : expr.chars ++ [] = expr'.chars ++ [] := by
      rw [Expr.chars, Expr.chars, hcode]
    exact (uniqueBelow _ expr expr' [] [] hexpr hexpr' hends hends (Nat.lt_succ_self _) hchars).1
  · intro hnormal
    rw [← expr.code_normal, hnormal, expr'.code_normal]

/-- A quoted text and a name as a key, with a sign in front of a signed numeral as the index. -/
theorem code_eq_code_iff_of_quoted :
    let position := Expr.unary .neg (.number "-1")
    let expr := Expr.index (.dict [(.ident "a", .str "b" true)]) position
    let expr' := Expr.index (.dict [(.str "a" true, .bare "b")]) position
    expr.Spelled ∧ expr'.Spelled ∧
      expr.code = "\x7b\"a\": \"b\"\x7d[(--1)]" ∧
      (expr.code = expr'.code ↔ expr.normal = expr'.normal) := by
  intro position expr expr'
  have hposition : position.Spelled := .unary .neg (.number (by decide))
  have hexpr : expr.Spelled :=
    .index (.dict (by simpa using .ident ⟨by decide, by decide⟩)
      (by simpa using .str "b" true)) hposition
  have hexpr' : expr'.Spelled :=
    .index (.dict (by simpa using .str "a" true) (by simpa using .str "b" false)) hposition
  exact ⟨hexpr, hexpr', by rfl, code_eq_code_iff hexpr hexpr'⟩

end LineScript
