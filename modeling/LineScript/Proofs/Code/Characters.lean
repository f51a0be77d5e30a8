import LineScript.Code.Expr
import LineScript.Proofs.Expr.Written

/-!
# The characters of the code of expressions

The code of an expression as a text of which the parts are known: the characters of its operands
with signs and brackets around them.  The code of an expression with indices behind it begins with
that of the expression in front of them (`Expr.indexed`), and its first character shows what this
expression is (`Expr.Spelled.exists_head`), if numerals are numerals and names are names which mean
nothing else in the code (`Expr.Spelled`).

Two differences between expressions do not show in the code: whether a text was quoted, and whether
a key of a dictionary was a name or the text that spells it.  `Expr.normal` removes them, and leaves
the code as it is (`Expr.code_normal`).

## What a first character tells

`Opening` is the kind of an expression as far as one character shows it.  A quote opens a text, a
bracket a list, a brace a dictionary, and a parenthesis an operator or a sign.  Names, constants and
calls all begin with a letter or an underscore.  Nothing but a numeral begins with `+` or `-`, since
the signs of the language stand in parentheses; so an expression that does is a numeral with indices
behind it, and stays an expression without its sign (`exists_unsigned`).  That fact is what keeps a
sign in front of an operand apart from a sign that belongs to it.
-/

namespace LineScript

/-! ## Expressions that are spelled as such -/

/-- A name that is no constant of the code. -/
def IsVariableName (name : String) : Prop :=
  isIdentifier name = true ∧ name ∉ ["True", "False", "None"]

namespace Expr

/-- The numerals of an expression are numerals, and its names are names. -/
inductive Spelled : Expr → Prop
  | number {text : String} (htext : isNumericWord text = true) : Spelled (.number text)
  | bool (value : Bool) : Spelled (.bool value)
  | none : Spelled .none
  | ident {name : String} (hname : IsVariableName name) : Spelled (.ident name)
  | str (text : String) (quoted : Bool) : Spelled (.str text quoted)
  | binary (op : BinaryOp) {left right : Expr} (hleft : Spelled left) (hright : Spelled right) :
      Spelled (.binary op left right)
  | unary (op : UnaryOp) {operand : Expr} (hoperand : Spelled operand) :
      Spelled (.unary op operand)
  | list {elements : List Expr} (helements : ∀ element ∈ elements, Spelled element) :
      Spelled (.list elements)
  | dict {entries : List (Expr × Expr)} (hkeys : ∀ entry ∈ entries, Spelled entry.1)
      (hvalues : ∀ entry ∈ entries, Spelled entry.2) : Spelled (.dict entries)
  | index {container position : Expr} (hcontainer : Spelled container)
      (hposition : Spelled position) : Spelled (.index container position)
  | call {func : String} {args : List Expr} (hfunc : IsVariableName func)
      (hargs : ∀ arg ∈ args, Spelled arg) : Spelled (.call func args)

/-- A key of a dictionary as what it stands for: a name is the text that spells it. -/
def asKey : Expr → Expr
  | .ident name => .bare name
  | key => key

mutual

/-- An expression with no quoted texts and no names as keys. -/
def normal : Expr → Expr
  | .number text => .number text
  | .bool value => .bool value
  | .none => .none
  | .ident name => .ident name
  | .str text _ => .bare text
  | .binary op left right => .binary op left.normal right.normal
  | .unary op operand => .unary op operand.normal
  | .list elements => .list (normals elements)
  | .dict entries => .dict (normalEntries entries)
  | .index container position => .index container.normal position.normal
  | .call func args => .call func (normals args)

/-- Expressions with no quoted texts and no names as keys. -/
def normals : List Expr → List Expr
  | [] => []
  | expr :: rest => expr.normal :: normals rest

/-- Entries with no quoted texts and no names as keys. -/
def normalEntries : List (Expr × Expr) → List (Expr × Expr)
  | [] => []
  | (.ident name, value) :: rest => (.bare name, value.normal) :: normalEntries rest
  | (key, value) :: rest => (key.normal, value.normal) :: normalEntries rest

end

theorem normals_eq_map (exprs : List Expr) : normals exprs = exprs.map normal := by
  induction exprs with
  | nil => rfl
  | cons expr rest ih => simp [normals, ih]

/-- An entry with its key as what it stands for. -/
def normalEntry (entry : Expr × Expr) : Expr × Expr := (entry.1.asKey.normal, entry.2.normal)

theorem normalEntries_eq_map (entries : List (Expr × Expr)) :
    normalEntries entries = entries.map normalEntry := by
  induction entries with
  | nil => rfl
  | cons entry rest ih =>
      obtain ⟨key, value⟩ := entry
      cases key <;> simp [normalEntries, normalEntry, asKey, normal, ih]

/-- The code of an entry. -/
def entryCode (entry : Expr × Expr) : String := entry.1.asKey.code ++ ": " ++ entry.2.code

theorem entryCodes_eq_map (entries : List (Expr × Expr)) :
    entryCodes entries = entries.map entryCode := by
  induction entries with
  | nil => rfl
  | cons entry rest ih =>
      obtain ⟨key, value⟩ := entry
      cases key <;> simp [entryCodes, entryCode, asKey, code, ih]

/-- The characters of the code of an expression. -/
def chars (expr : Expr) : List Char := expr.code.toList

end Expr

/-! ## Differences that do not show -/

namespace Expr

mutual

/-- The differences that `normal` removes do not show in the code. -/
theorem code_normal : ∀ expr : Expr, expr.normal.code = expr.code
  | .number _ | .bool _ | .none | .ident _ | .str _ _ => rfl
  | .binary op left right => by
      rw [normal, code, code, code_normal left, code_normal right]
  | .unary op operand => by
      have hoperand := code_normal operand
      cases op <;> rw [normal, code, code, hoperand] <;> nofun
  | .list elements => by rw [normal, code, code, codes_normals elements]
  | .dict entries => by rw [normal, code, code, entryCodes_normalEntries entries]
  | .index container position => by
      rw [normal, code, code, code_normal container, code_normal position]
  | .call func args => by rw [normal, code, code, codes_normals args]

theorem codes_normals : ∀ exprs : List Expr, codes (normals exprs) = codes exprs
  | [] => rfl
  | expr :: rest => by rw [normals, codes, codes, code_normal expr, codes_normals rest]

theorem entryCodes_normalEntries :
    ∀ entries : List (Expr × Expr), entryCodes (normalEntries entries) = entryCodes entries
  | [] => rfl
  | (key, value) :: rest => by
      have hkey := code_normal key
      have hvalue := code_normal value
      have hentry : entryCode (normalEntry (key, value)) = entryCode (key, value) := by
        rw [entryCode, entryCode, normalEntry, hvalue]
        cases key with
        | ident name => rfl
        | _ => exact congrArg (· ++ ": " ++ value.code) hkey
      have hrest := entryCodes_normalEntries rest
      simp only [normalEntries_eq_map, entryCodes_eq_map, List.map_cons, hentry] at hrest ⊢
      rw [hrest]

end

end Expr

/-! ## First characters -/

/-- What the code of an expression begins with. -/
inductive Opening where
  | numeral | name | quote | parenthesis | bracket | brace
  deriving DecidableEq

/-- What a first character shows. -/
def Opening.of? (c : Char) : Option Opening :=
  if c = '"' then some .quote
  else if c = '(' then some .parenthesis
  else if c = '[' then some .bracket
  else if c = '\x7b' then some .brace
  else if c.isDigit || "+-.".toList.contains c then some .numeral
  else if Text.isLetter c || c == '_' then some .name
  else none

/-- What the code of an expression begins with. -/
def Expr.opening : Expr → Opening
  | .number _ => .numeral
  | .bool _ | .none | .ident _ | .call .. => .name
  | .str .. => .quote
  | .binary .. | .unary .. => .parenthesis
  | .list _ => .bracket
  | .dict _ => .brace
  | .index container _ => container.opening

theorem Opening.of?_of_isNumeric {c : Char} {more : List Char}
    (hnumeric : Text.isNumeric (c :: more) = true) : of? c = some .numeral := by
  have hstart : (c.isDigit || "+-.".toList.contains c) = true := by
    rcases Text.head_of_isNumeric hnumeric with hdigit | rfl | rfl | rfl
    · rw [hdigit, Bool.true_or]
    all_goals decide
  have hplain : c ≠ '"' ∧ c ≠ '(' ∧ c ≠ '[' ∧ c ≠ '\x7b' := by
    refine ⟨?_, ?_, ?_, ?_⟩
    all_goals
      rintro rfl
      exact absurd hstart (by decide)
  obtain ⟨hquote, hparenthesis, hbracket, hbrace⟩ := hplain
  rw [of?, if_neg hquote, if_neg hparenthesis, if_neg hbracket, if_neg hbrace, if_pos hstart]

theorem Opening.of?_of_isIdentifier {name : String} (hname : isIdentifier name = true) :
    ∃ c more, name.toList = c :: more ∧ of? c = some .name := by
  obtain ⟨c, more, htext, hstart, hdigit, hcharacter⟩ := exists_head_of_isIdentifier hname
  refine ⟨c, more, htext, ?_⟩
  have hsign {sign : Char} (houtside : Text.outsideNames.contains sign = true) : c ≠ sign :=
    ne_of_isNameCharacter hcharacter houtside
  have hnumeral : (c.isDigit || "+-.".toList.contains c) = false := by
    rw [hdigit, Bool.false_or, Bool.eq_false_iff]
    intro hcontains
    have hsigns : "+-.".toList.all Text.outsideNames.contains = true := by
      decide
    exact hsign (List.all_eq_true.mp hsigns c (List.contains_iff_mem.mp hcontains)) rfl
  rw [of?, if_neg (hsign (by decide)), if_neg (hsign (by decide)), if_neg (hsign (by decide)),
    if_neg (hsign (by decide)), hnumeral, if_neg Bool.false_ne_true, if_pos hstart]

/-- Nothing begins with the signs behind expressions or with an operator that is no sign of a
number. -/
theorem Opening.of?_eq_none {c : Char} (hc : c ∈ " )]\x7d*/=!<>".toList) : of? c = none := by
  have hplain : " )]\x7d*/=!<>".toList.all (fun c =>
      c ≠ '"' ∧ c ≠ '(' ∧ c ≠ '[' ∧ c ≠ '\x7b' ∧ (c.isDigit || "+-.".toList.contains c) = false ∧
        Text.outsideNames.contains c = true) = true := by
    decide
  obtain ⟨hquote, hparenthesis, hbracket, hbrace, hnumeral, houtside⟩ :=
    of_decide_eq_true (List.all_eq_true.mp hplain c hc)
  have hname := not_isNameCharacter houtside
  simp only [isNameCharacter, Text.isLetterOrNumber, Bool.or_eq_false_iff] at hname
  rw [of?, if_neg hquote, if_neg hparenthesis, if_neg hbracket, if_neg hbrace, hnumeral,
    if_neg Bool.false_ne_true, hname.1.1, hname.2]
  rfl

/-! ## The parts of a code -/

namespace Expr

/-- The characters between an opening parenthesis and the operand of an operator. -/
def prefixChars : UnaryOp → List Char
  | .not => ['n', 'o', 't', ' ']
  | .neg => ['-']
  | .plus => ['+']

/-- Codes with commas between them. -/
def separated (codes : List (List Char)) : List Char := [',', ' '].intercalate codes

/-- The characters of an entry. -/
def entryChars (entry : Expr × Expr) : List Char :=
  entry.1.asKey.chars ++ ':' :: ' ' :: entry.2.chars

theorem chars_str (text : String) (quoted : Bool) :
    (str text quoted).chars = '"' :: (text.toList.flatMap Code.escapeDouble ++ ['"']) := by
  rw [chars, code, Code.doubleQuoted, String.toList_ofList]
  rfl

theorem chars_binary (op : BinaryOp) (left right : Expr) :
    (binary op left right).chars =
      '(' :: (left.chars ++ ' ' :: (op.symbol.toList ++ ' ' :: (right.chars ++ [')']))) := by
  simp [chars, code]

theorem chars_unary (op : UnaryOp) (operand : Expr) :
    (unary op operand).chars = '(' :: (prefixChars op ++ (operand.chars ++ [')'])) := by
  cases op <;> simp [chars, code, prefixChars, UnaryOp.symbol]

theorem chars_index (container position : Expr) :
    (index container position).chars = container.chars ++ '[' :: (position.chars ++ [']']) := by
  simp [chars, code]

theorem toList_separated (codes : List String) :
    (", ".intercalate codes).toList = separated (codes.map String.toList) := by
  rw [String.toList_intercalate]
  rfl

theorem chars_list (elements : List Expr) :
    (list elements).chars = '[' :: (separated (elements.map chars) ++ [']']) := by
  rw [chars, code, String.toList_append, String.toList_append, toList_separated, codes_eq_map,
    List.map_map]
  rfl

theorem chars_dict (entries : List (Expr × Expr)) :
    (dict entries).chars = '\x7b' :: (separated (entries.map entryChars) ++ ['\x7d']) := by
  have hentry : String.toList ∘ entryCode = entryChars := by
    funext entry
    simp [entryCode, entryChars, chars]
  rw [chars, code, String.toList_append, String.toList_append, toList_separated,
    entryCodes_eq_map, List.map_map, hentry]
  rfl

theorem chars_call (func : String) (args : List Expr) :
    (call func args).chars =
      func.toList ++ '(' :: (separated (args.map chars) ++ [')']) := by
  rw [chars, code, String.toList_append, String.toList_append, String.toList_append,
    toList_separated, codes_eq_map, List.map_map, List.append_assoc, List.append_assoc]
  rfl

end Expr

/-- The code of an expression begins with a character that shows what it is. -/
theorem Expr.Spelled.exists_head {expr : Expr} (hexpr : expr.Spelled) :
    ∃ c more, expr.chars = c :: more ∧ Opening.of? c = some expr.opening := by
  induction hexpr with
  | @number text htext =>
      cases hchars : text.toList with
      | nil =>
          rw [isNumericWord, hchars] at htext
          cases htext
      | cons c more =>
          rw [isNumericWord, hchars] at htext
          exact ⟨c, more, hchars, Opening.of?_of_isNumeric htext⟩
  | bool value =>
      cases value with
      | true => exact ⟨'T', "rue".toList, rfl, by decide⟩
      | false => exact ⟨'F', "alse".toList, rfl, by decide⟩
  | none => exact ⟨'N', "one".toList, rfl, by decide⟩
  | ident hname => exact Opening.of?_of_isIdentifier hname.1
  | str text quoted => exact ⟨'"', _, Expr.chars_str text quoted, rfl⟩
  | binary op hleft hright => exact ⟨'(', _, Expr.chars_binary op _ _, rfl⟩
  | unary op hoperand => exact ⟨'(', _, Expr.chars_unary op _, rfl⟩
  | list helements => exact ⟨'[', _, Expr.chars_list _, rfl⟩
  | dict hkeys hvalues => exact ⟨'\x7b', _, Expr.chars_dict _, rfl⟩
  | index hcontainer hposition ihContainer ihPosition =>
      -- the code of an element begins with that of its container
      obtain ⟨c, more, hchars, hopening⟩ := ihContainer
      exact ⟨c, _, by rw [Expr.chars_index, hchars, List.cons_append], hopening⟩
  | @call func args hfunc hargs ih =>
      obtain ⟨c, more, hchars, hopening⟩ := Opening.of?_of_isIdentifier hfunc.1
      exact ⟨c, _, by rw [Expr.chars_call, hchars, List.cons_append], hopening⟩

/-! ## Indices -/

namespace Expr

/-- The expression in front of all indices. -/
def base : Expr → Expr
  | .index container _ => container.base
  | expr => expr

/-- The indices behind an expression, from the left. -/
def positions : Expr → List Expr
  | .index container position => container.positions ++ [position]
  | _ => []

/-- An expression with indices behind it. -/
def indexed (expr : Expr) (positions : List Expr) : Expr := positions.foldl .index expr

/-- The characters of indices. -/
def indexChars (positions : List Expr) : List Char :=
  positions.flatMap fun position => '[' :: (position.chars ++ [']'])

theorem indexed_base (expr : Expr) : expr.base.indexed expr.positions = expr := by
  fun_induction base expr with
  | case1 container position ih =>
      rw [positions, indexed, List.foldl_append]
      rw [indexed] at ih
      rw [ih]
      rfl
  | case2 expr hbase =>
      cases expr with
      | index container position => exact absurd rfl (hbase container position)
      | _ => rfl

theorem base_ne_index (expr container position : Expr) : expr.base ≠ .index container position := by
  fun_induction base expr with
  | case1 _ _ ih => exact ih
  | case2 expr hbase => exact hbase container position

theorem chars_indexed (expr : Expr) (positions : List Expr) :
    (expr.indexed positions).chars = expr.chars ++ indexChars positions := by
  induction positions generalizing expr with
  | nil => exact (List.append_nil _).symm
  | cons position more ih =>
      have hmore := ih (.index expr position)
      rw [chars_index, List.append_assoc] at hmore
      exact hmore

theorem normal_indexed (expr : Expr) (positions : List Expr) :
    (expr.indexed positions).normal = expr.normal.indexed (positions.map normal) := by
  induction positions generalizing expr with
  | nil => rfl
  | cons position more ih => exact ih (.index expr position)

theorem opening_indexed (expr : Expr) (positions : List Expr) :
    (expr.indexed positions).opening = expr.opening := by
  induction positions generalizing expr with
  | nil => rfl
  | cons position more ih => exact ih (.index expr position)

theorem spelled_indexed {expr : Expr} {positions : List Expr} :
    (expr.indexed positions).Spelled ↔ expr.Spelled ∧ ∀ position ∈ positions, position.Spelled := by
  induction positions generalizing expr with
  | nil => exact ⟨fun hexpr => ⟨hexpr, List.forall_mem_nil _⟩, And.left⟩
  | cons position more ih =>
      have hindex : (Expr.index expr position).Spelled ↔ expr.Spelled ∧ position.Spelled := by
        refine ⟨fun hindex => ?_, fun ⟨hexpr, hposition⟩ => .index hexpr hposition⟩
        cases hindex with
        | index hexpr hposition => exact ⟨hexpr, hposition⟩
      rw [List.forall_mem_cons, ← and_assoc, ← hindex]
      exact ih

end Expr

/-! ## Signs -/

variable {expr : Expr} {rest : List Char}

/-- A text with a sign is no unsigned number. -/
theorem Text.dropSign_of_isFloat {text : List Char}
    (hfloat : isDecimal text = true ∨ isNumberWord text = true) : dropSign text = text := by
  unfold dropSign
  split
  · rcases hfloat with h | h
    · simp [isDecimal] at h
    · simp [isNumberWord] at h
  · rcases hfloat with h | h
    · simp [isDecimal] at h
    · simp [isNumberWord] at h
  · rfl

/-- A numeral with a sign is one without it. -/
theorem Text.isNumeric_of_sign {sign : Char} (hsign : sign = '+' ∨ sign = '-') {digits : List Char}
    (hnumeric : isNumeric (sign :: digits) = true) : isNumeric digits = true := by
  have hdigit : sign.isDigit = false ∧ sign ≠ '_' := by
    rcases hsign with rfl | rfl <;> decide
  have hdrop (text : List Char) : dropSign (sign :: text) = text := by
    rcases hsign with rfl | rfl <;> rfl
  simp only [isNumeric, List.any_cons, hdigit.1, Bool.false_or, underscoresSeparate, hdigit.2,
    if_false, Bool.and_eq_true] at hnumeric ⊢
  obtain ⟨hdigits, hfloat⟩ := hnumeric
  refine ⟨hdigits, ?_⟩
  rw [List.filter_cons_of_pos (by simpa using hdigit.2), isFloat, hdrop, Bool.or_eq_true] at hfloat
  rwa [isFloat, dropSign_of_isFloat hfloat, Bool.or_eq_true]

namespace Expr.Spelled

/-- What begins as a numeral is one, perhaps with indices behind it. -/
theorem exists_number (hexpr : expr.Spelled) (hopening : expr.opening = .numeral) :
    ∃ text positions, expr = (Expr.number text).indexed positions ∧ isNumericWord text = true := by
  have hindexed := expr.indexed_base
  rw [← hindexed, Expr.opening_indexed] at hopening
  rw [← hindexed, Expr.spelled_indexed] at hexpr
  cases hbase : expr.base with
  | number text =>
      rw [hbase] at hindexed hexpr
      cases hexpr.1 with
      | number htext => exact ⟨text, expr.positions, hindexed.symm, htext⟩
  | index container position => exact absurd hbase (expr.base_ne_index container position)
  | _ =>
      rw [hbase] at hopening
      cases hopening

theorem opening_of_sign (hexpr : expr.Spelled) {sign : Char} (hsign : sign = '+' ∨ sign = '-')
    {more : List Char} (hchars : expr.chars ++ rest = sign :: more) :
    expr.opening = .numeral := by
  obtain ⟨c, behind, hhead, hopening⟩ := hexpr.exists_head
  have hnumeral : Opening.of? sign = some .numeral := by
    rcases hsign with rfl | rfl <;> decide
  rw [hhead, List.cons_append] at hchars
  rw [(List.cons.inj hchars).1, hnumeral] at hopening
  exact (Option.some.inj hopening).symm

/-- What begins with a sign is also an expression without it. -/
theorem exists_unsigned (hexpr : expr.Spelled) {sign : Char} (hsign : sign = '+' ∨ sign = '-')
    {more : List Char} (hchars : expr.chars ++ rest = sign :: more) :
    ∃ unsigned : Expr, unsigned.Spelled ∧ unsigned.chars ++ rest = more := by
  -- only numerals begin with a sign, and indices may stand behind them
  obtain ⟨text, positions, rfl, htext⟩ := hexpr.exists_number (hexpr.opening_of_sign hsign hchars)
  obtain ⟨-, hpositions⟩ := Expr.spelled_indexed.mp hexpr
  rw [Expr.chars_indexed] at hchars
  have htoList : (Expr.number text).chars = text.toList := rfl
  cases htext' : text.toList with
  | nil =>
      rw [isNumericWord, htext'] at htext
      cases htext
  | cons c digits =>
      rw [htoList, htext', List.cons_append, List.cons_append, List.cons.injEq] at hchars
      obtain ⟨rfl, hmore⟩ := hchars
      rw [isNumericWord, htext'] at htext
      -- the numeral without its sign, with the same indices
      refine ⟨(Expr.number (String.ofList digits)).indexed positions,
        Expr.spelled_indexed.mpr ⟨.number ?_, hpositions⟩, ?_⟩
      · rw [isNumericWord, String.toList_ofList]
        exact Text.isNumeric_of_sign hsign htext
      · rw [Expr.chars_indexed, ← hmore, Expr.chars, Expr.code, String.toList_ofList]

/-- Nothing begins with a character that shows no kind of expression. -/
theorem append_ne_cons (hexpr : expr.Spelled) {c : Char} (hc : Opening.of? c = Option.none)
    (more : List Char) : expr.chars ++ rest ≠ c :: more := by
  obtain ⟨first, behind, hhead, hopening⟩ := hexpr.exists_head
  rw [hhead, List.cons_append]
  intro heq
  rw [(List.cons.inj heq).1, hc] at hopening
  cases hopening

/-- No expression begins with a binary operator that is no word and a blank. -/
theorem append_ne_symbol (hexpr : expr.Spelled) {op : BinaryOp} (hop : op ≠ .or ∧ op ≠ .and)
    (more : List Char) : expr.chars ++ rest ≠ op.symbol.toList ++ ' ' :: more := by
  have hsign {sign : Char} (hsign : sign = '+' ∨ sign = '-') :
      expr.chars ++ rest ≠ sign :: ' ' :: more := by
    -- without the sign it would begin with the blank
    intro heq
    obtain ⟨unsigned, hunsigned, hchars⟩ := hexpr.exists_unsigned hsign heq
    exact hunsigned.append_ne_cons (Opening.of?_eq_none (by decide)) _ hchars
  cases op with
  | or => exact absurd rfl hop.1
  | and => exact absurd rfl hop.2
  | add => exact hsign (.inl rfl)
  | sub => exact hsign (.inr rfl)
  | _ => exact hexpr.append_ne_cons (Opening.of?_eq_none (by decide)) _

end Expr.Spelled

end LineScript
