import LineScript.Dump.Tree
import LineScript.Proofs.Text.UniqueReading

/-!
# Trees are read in one way

Nothing marks where a value ends, strings hold any characters, and the blanks in front of a value
depend on how deep it stands.  Main statement: still no two trees have the same text
(`pretty_injective`).

## Strategy

The proof reads two texts from the left.  What is shown for a value is that its text, with anything
behind it that does not begin with a digit, determines the value and the rest (`Readable`).  Digits
have to be excluded since a number ends only where the next character is none.

* The first character tells the kinds of values apart (`kind_eq`).
* A string ends at the first quote that is not escaped.  Characters are escaped one by one, and two
  escapes with something behind them are equal only if the characters are (`Escaped.inj`).
* Behind an item of an array or object stands a comma or a line break, neither of which is a digit
  (`noDigit_behindItem`), so that items are read one after the other (`items_inj`).  The blanks
  depend on the level alone, which both texts share.

Arrays and objects are written in the same way but for their brackets and for the names of fields.
They are one case here (`enclose_inj`), and the recursion into the values inside of them is the
recursion of the tree itself.
-/

namespace LineScript

namespace Json

/-! ## Strings -/

/-- The character that a mark behind a backslash stands for. -/
def marked? : Char → Option Char
  | '"' => some '"'
  | '\\' => some '\\'
  | 'n' => some '\n'
  | 'r' => some '\r'
  | 't' => some '\t'
  | 'b' => some '\x08'
  | 'f' => some '\x0c'
  | _ => none

/-- The three ways to write a character of a string. -/
inductive Escaped : Char → List Char → Prop
  | plain {c : Char} (hquote : c ≠ '"') (hbackslash : c ≠ '\\') : Escaped c [c]
  | marked {c mark : Char} (hmark : marked? mark = some c) : Escaped c ['\\', mark]
  | numbered {c : Char} (hcontrol : c.toNat < 32) :
      Escaped c ['\\', 'u', '0', '0', hexDigit (c.toNat / 16), hexDigit (c.toNat % 16)]

theorem escaped_escape (c : Char) : Escaped c (escape c) := by
  unfold escape
  split
  case h_8 hquote hbackslash _ _ _ _ _ =>
    split
    · exact .numbered ‹_›
    · exact .plain hquote hbackslash
  all_goals exact .marked rfl

theorem hexDigit_inj {value value' : Nat} (hvalue : value < 16) (hvalue' : value' < 16)
    (heq : hexDigit value = hexDigit value') : value = value' := by
  have hdigits : ∀ a < 16, ∀ b < 16, hexDigit a = hexDigit b → a = b := by
    decide
  exact hdigits value hvalue value' hvalue' heq

theorem Escaped.inj {c d : Char} {text text' rest rest' : List Char} (hc : Escaped c text)
    (hd : Escaped d text') (heq : text ++ rest = text' ++ rest') : c = d ∧ rest = rest' := by
  cases hc with
  | plain hquote hbackslash =>
      cases hd with
      | plain => exact List.cons.inj heq
      -- the other one begins with a backslash
      | marked | numbered => exact absurd (List.cons.inj heq).1 hbackslash
  | marked hmark =>
      cases hd with
      | plain hquote hbackslash => exact absurd (List.cons.inj heq).1.symm hbackslash
      | marked hmark' =>
          obtain ⟨rfl, hrest⟩ := List.cons.inj (List.cons.inj heq).2
          exact ⟨Option.some.inj (hmark.symm.trans hmark'), hrest⟩
      | numbered =>
          -- `u` is the mark of no character
          obtain ⟨rfl, -⟩ := List.cons.inj (List.cons.inj heq).2
          cases hmark
  | numbered hcontrol =>
      cases hd with
      | plain hquote hbackslash => exact absurd (List.cons.inj heq).1.symm hbackslash
      | marked hmark =>
          obtain ⟨rfl, -⟩ := List.cons.inj (List.cons.inj heq).2
          cases hmark
      | numbered hcontrol' =>
          simp only [List.cons_append, List.nil_append, List.cons.injEq, true_and] at heq
          -- two hexadecimal digits are enough for control characters
          have hhigh := hexDigit_inj (by omega) (by omega) heq.1
          have hlow := hexDigit_inj (by omega) (by omega) heq.2.1
          have hcode : c.toNat = d.toNat := by omega
          exact ⟨Char.toNat_inj.mp hcode, heq.2.2⟩

theorem escapes_escape : Escapes escape '"' where
  inj heq := (escaped_escape _).inj (escaped_escape _) heq
  append_ne := by
    intro c rest rest' heq
    have hc := escaped_escape c
    generalize escape c = text at hc heq
    cases hc with
    | plain hquote => exact hquote (List.cons.inj heq).1
    | marked | numbered => exact absurd (List.cons.inj heq).1 (by decide)

theorem toList_quote (text : String) :
    (quote text).toList = '"' :: (text.toList.flatMap escape ++ ['"']) := by
  rw [quote, String.toList_ofList, List.cons_append]

/-- A string in quotes shows which one it is and where it ends. -/
theorem quote_inj {text text' : String} {rest rest' : List Char}
    (heq : (quote text).toList ++ rest = (quote text').toList ++ rest') :
    text = text' ∧ rest = rest' := by
  simp only [toList_quote, List.cons_append, List.append_assoc, List.nil_append, List.cons.injEq,
    true_and] at heq
  obtain ⟨htext, hrest⟩ := escapes_escape.escaped_inj heq
  exact ⟨String.toList_inj.mp htext, hrest⟩

/-! ## Numbers -/

/-- The text does not go on with a digit. -/
def NoDigit (rest : List Char) : Prop := ∀ c ∈ rest.head?, c.isDigit = false

theorem noDigit_cons {c : Char} (hc : c.isDigit = false) (rest : List Char) :
    NoDigit (c :: rest) := by
  rintro _ ⟨⟩
  exact hc

theorem toList_toString_nat (value : Nat) : (toString value).toList = Nat.toDigits 10 value := by
  rw [Nat.toString_eq_ofList_toDigits, String.toList_ofList]

theorem isDigit_of_mem_toDigits (value : Nat) : ∀ c ∈ Nat.toDigits 10 value, c.isDigit = true :=
  fun _ hc => Nat.isDigit_of_mem_toDigits (by decide) (by decide) hc

/-- A number shows where it ends, if no digit stands behind it. -/
theorem nat_inj {value value' : Nat} {rest rest' : List Char} (hrest : NoDigit rest)
    (hrest' : NoDigit rest')
    (heq : (toString value).toList ++ rest = (toString value').toList ++ rest') :
    value = value' ∧ rest = rest' := by
  rw [toList_toString_nat, toList_toString_nat] at heq
  obtain ⟨hdigits, hrests⟩ := run_inj (isDigit_of_mem_toDigits value)
    (isDigit_of_mem_toDigits value') hrest hrest' heq
  have hvalues := congrArg (Nat.ofDigitChars 10 · 0) hdigits
  simp only [Nat.ofDigitChars_toDigits (by decide : 1 < 10) (by decide)] at hvalues
  exact ⟨hvalues, hrests⟩

/-! ## Items between brackets -/

/-- What is written for an item shows which item it is and where it ends, if no digit stands behind
it. -/
def Readable {α : Type} (write : α → String) (item : α) : Prop :=
  ∀ (item' : α) (rest rest' : List Char), NoDigit rest → NoDigit rest' →
    (write item).toList ++ rest = (write item').toList ++ rest' → item = item' ∧ rest = rest'

section Items

variable {α : Type} {write : α → String} {level : Nat} {opening closing : String}
  {items items' others others' : List α} {rest rest' : List Char}

theorem toList_newLine (level : Nat) :
    (newLine level).toList = '\n' :: List.replicate (2 * level) ' ' := by
  simp [newLine]

/-- What stands behind an item: the others, each behind a comma on a line of its own, and the
closing bracket. -/
def behindItem (write : α → String) (level : Nat) (closing : String) (others : List α) :
    List Char :=
  others.flatMap (fun item => ',' :: ((newLine (level + 1)).toList ++ (write item).toList)) ++
    ((newLine level).toList ++ closing.toList)

theorem behindItem_nil : behindItem write level closing [] =
    '\n' :: (List.replicate (2 * level) ' ' ++ closing.toList) := by
  simp [behindItem, toList_newLine]

theorem behindItem_cons (item : α) (others : List α) :
    behindItem write level closing (item :: others) = ',' :: ((newLine (level + 1)).toList ++
      ((write item).toList ++ behindItem write level closing others)) := by
  simp [behindItem]

theorem noDigit_behindItem (others : List α) (rest : List Char) :
    NoDigit (behindItem write level closing others ++ rest) := by
  cases others with
  | nil =>
      rw [behindItem_nil, List.cons_append]
      exact noDigit_cons (by decide) _
  | cons item others =>
      rw [behindItem_cons, List.cons_append]
      exact noDigit_cons (by decide) _

/-- Readable items, each with the others behind it, show which ones they are and where they end. -/
theorem items_inj {item item' : α} (hitems : ∀ one ∈ item :: others, Readable write one)
    (heq : (write item).toList ++ (behindItem write level closing others ++ rest) =
      (write item').toList ++ (behindItem write level closing others' ++ rest')) :
    item :: others = item' :: others' ∧ rest = rest' := by
  induction others generalizing item item' others' with
  | nil =>
      have hitem := hitems item List.mem_cons_self
      obtain ⟨rfl, hbehind⟩ := hitem _ _ _ (noDigit_behindItem _ _) (noDigit_behindItem _ _) heq
      cases others' with
      | nil => exact ⟨rfl, List.append_cancel_left hbehind⟩
      | cons other' others' =>
          rw [behindItem_nil, behindItem_cons] at hbehind
          -- a line break behind the last item, a comma behind the others
          exact absurd (List.cons.inj hbehind).1 (by decide)
  | cons other others ih =>
      obtain ⟨hitem, hothers⟩ := List.forall_mem_cons.mp hitems
      obtain ⟨rfl, hbehind⟩ := hitem _ _ _ (noDigit_behindItem _ _) (noDigit_behindItem _ _) heq
      cases others' with
      | nil =>
          rw [behindItem_nil, behindItem_cons] at hbehind
          exact absurd (List.cons.inj hbehind).1 (by decide)
      | cons other' others' =>
          -- both go on with a comma, a line break and the same blanks
          simp only [behindItem_cons, List.cons_append, List.append_assoc, List.cons.injEq,
            true_and, List.append_cancel_left_eq] at hbehind
          obtain ⟨hsame, hrest⟩ := ih hothers hbehind
          exact ⟨congrArg (item :: ·) hsame, hrest⟩

theorem intercalate_cons (item : α) (others : List α) (text : α → List Char) :
    [','].intercalate ((item :: others).map text) =
      text item ++ others.flatMap fun other => ',' :: text other := by
  induction others generalizing item with
  | nil => simp
  | cons other others ih =>
      rw [List.map_cons, List.map_cons, List.intercalate_cons_cons, ← List.map_cons, ih]
      simp

theorem toList_enclose_nil : (enclose opening closing level []).toList =
    opening.toList ++ closing.toList := String.toList_append

theorem toList_enclose_cons (item : α) (others : List α) :
    (enclose opening closing level ((item :: others).map write)).toList =
      opening.toList ++ ((newLine (level + 1)).toList ++
        ((write item).toList ++ behindItem write level closing others)) := by
  have hlines := intercalate_cons item others
    fun item => (newLine (level + 1)).toList ++ (write item).toList
  rw [enclose, if_neg (by simp)]
  simp only [String.toList_append, String.toList_intercalate, List.map_map, Function.comp_def]
  rw [show ",".toList = [','] from rfl, hlines, behindItem]
  simp

/-- Readable items between brackets show which ones they are and where they end. -/
theorem enclose_inj {bracket : Char} (hclosing : closing.toList = [bracket])
    (hbracket : bracket ≠ '\n') (hitems : ∀ item ∈ items, Readable write item)
    (heq : (enclose opening closing level (items.map write)).toList ++ rest =
      (enclose opening closing level (items'.map write)).toList ++ rest') :
    items = items' ∧ rest = rest' := by
  cases items with
  | nil =>
      cases items' with
      | nil => exact ⟨rfl, List.append_cancel_left heq⟩
      | cons item' others' =>
          simp only [toList_enclose_cons, List.map_nil, toList_enclose_nil, List.append_assoc,
            List.append_cancel_left_eq, hclosing, toList_newLine] at heq
          -- the bracket of an empty value closes at once
          exact absurd (List.cons.inj heq).1 hbracket
  | cons item others =>
      cases items' with
      | nil =>
          simp only [toList_enclose_cons, List.map_nil, toList_enclose_nil, List.append_assoc,
            List.append_cancel_left_eq, hclosing, toList_newLine] at heq
          exact absurd (List.cons.inj heq).1.symm hbracket
      | cons item' others' =>
          simp only [toList_enclose_cons, List.append_assoc, List.append_cancel_left_eq] at heq
          exact items_inj hitems heq

end Items

/-! ## Values -/

/-- The kinds of values, with the two truth values apart. -/
inductive Kind where
  | null | bool (value : Bool) | nat | text | array | object

/-- The kind of a value. -/
def kind : Json → Kind
  | .null => .null
  | .bool value => .bool value
  | .nat _ => .nat
  | .text _ => .text
  | .array _ => .array
  | .object _ => .object

/-- The kind that a first character shows. -/
def Kind.of (c : Char) : Kind :=
  if c.isDigit then .nat
  else match c with
    | 'n' => .null
    | 't' => .bool true
    | 'f' => .bool false
    | '"' => .text
    | '[' => .array
    | _ => .object

theorem exists_head_enclose (opening : Char) (closing : String) (level : Nat)
    (items : List String) :
    ∃ more, (enclose (String.ofList [opening]) closing level items).toList = opening :: more := by
  unfold enclose
  split <;> simp

theorem exists_head (json : Json) (level : Nat) :
    ∃ c more, (json.prettyAt level).toList = c :: more ∧ json.kind = .of c := by
  cases json with
  | null => exact ⟨'n', "ull".toList, by rw [prettyAt]; rfl, rfl⟩
  | bool value =>
      cases value with
      | true => exact ⟨'t', "rue".toList, by rw [prettyAt]; rfl, rfl⟩
      | false => exact ⟨'f', "alse".toList, by rw [prettyAt]; rfl, rfl⟩
  | nat value =>
      obtain ⟨c, more, hdigits⟩ :=
        List.exists_cons_of_ne_nil (Nat.toDigits_ne_nil : Nat.toDigits 10 value ≠ [])
      -- a number begins with a digit, and nothing else does
      have hc := isDigit_of_mem_toDigits value c (hdigits ▸ List.mem_cons_self)
      exact ⟨c, more, (toList_toString_nat value).trans hdigits, (if_pos hc).symm⟩
  | text value => exact ⟨'"', _, toList_quote value, rfl⟩
  | array items =>
      obtain ⟨more, hmore⟩ := exists_head_enclose '[' "]" level (prettyItems (level + 1) items)
      exact ⟨'[', more, hmore, rfl⟩
  | object fields =>
      obtain ⟨more, hmore⟩ :=
        exists_head_enclose '\x7b' "\x7d" level (prettyFields (level + 1) fields)
      exact ⟨'\x7b', more, hmore, rfl⟩

theorem kind_eq {json json' : Json} {level : Nat} {rest rest' : List Char}
    (heq : (json.prettyAt level).toList ++ rest = (json'.prettyAt level).toList ++ rest') :
    json.kind = json'.kind := by
  obtain ⟨c, more, hchars, hkind⟩ := json.exists_head level
  obtain ⟨c', more', hchars', hkind'⟩ := json'.exists_head level
  rw [hchars, hchars', List.cons_append, List.cons_append] at heq
  rw [hkind, hkind', (List.cons.inj heq).1]

theorem prettyItems_eq_map (level : Nat) (items : List Json) :
    prettyItems level items = items.map (prettyAt level) := by
  induction items with
  | nil => rfl
  | cons item rest ih => rw [prettyItems, ih, List.map_cons]

/-- A field of an object as it is written at a level. -/
def prettyField (level : Nat) (field : String × Json) : String :=
  quote field.1 ++ ": " ++ prettyAt level field.2

theorem prettyFields_eq_map (level : Nat) (fields : List (String × Json)) :
    prettyFields level fields = fields.map (prettyField level) := by
  induction fields with
  | nil => rfl
  | cons field rest ih => rw [prettyFields, ih, List.map_cons, prettyField]

theorem readable_field {level : Nat} {field : String × Json}
    (hvalue : Readable (prettyAt level) field.2) : Readable (prettyField level) field := by
  rintro ⟨name', value'⟩ rest rest' hrest hrest' heq
  obtain ⟨name, value⟩ := field
  simp only [prettyField, String.toList_append, List.append_assoc] at heq
  obtain ⟨rfl, hbehind⟩ := quote_inj heq
  obtain ⟨rfl, hrests⟩ := hvalue _ _ _ hrest hrest' (List.append_cancel_left hbehind)
  exact ⟨rfl, hrests⟩

theorem readable_nat (level value : Nat) : Readable (prettyAt level) (.nat value) := by
  intro json' rest rest' hrest hrest' heq
  have hkind := kind_eq heq
  cases json' with
  | nat value' =>
      obtain ⟨rfl, hrests⟩ := nat_inj hrest hrest' heq
      exact ⟨rfl, hrests⟩
  | _ => cases hkind

theorem readable_text (level : Nat) (value : String) : Readable (prettyAt level) (.text value) := by
  intro json' rest rest' hrest hrest' heq
  have hkind := kind_eq heq
  cases json' with
  | text value' =>
      obtain ⟨rfl, hrests⟩ := quote_inj heq
      exact ⟨rfl, hrests⟩
  | _ => cases hkind

theorem readable_null (level : Nat) : Readable (prettyAt level) .null := by
  intro json' rest rest' hrest hrest' heq
  have hkind := kind_eq heq
  cases json' with
  | null => exact ⟨rfl, List.append_cancel_left heq⟩
  | _ => cases hkind

theorem readable_bool (level : Nat) (value : Bool) : Readable (prettyAt level) (.bool value) := by
  intro json' rest rest' hrest hrest' heq
  have hkind := kind_eq heq
  cases json' with
  | bool value' =>
      cases hkind
      exact ⟨rfl, List.append_cancel_left heq⟩
  | _ => cases hkind

theorem readable_array {level : Nat} {items : List Json}
    (hitems : ∀ item ∈ items, Readable (prettyAt (level + 1)) item) :
    Readable (prettyAt level) (.array items) := by
  intro json' rest rest' hrest hrest' heq
  have hkind := kind_eq heq
  cases json' with
  | array items' =>
      rw [prettyAt, prettyAt, prettyItems_eq_map, prettyItems_eq_map] at heq
      obtain ⟨rfl, hrests⟩ := enclose_inj rfl (by decide) hitems heq
      exact ⟨rfl, hrests⟩
  | _ => cases hkind

theorem readable_object {level : Nat} {fields : List (String × Json)}
    (hvalues : ∀ field ∈ fields, Readable (prettyAt (level + 1)) field.2) :
    Readable (prettyAt level) (.object fields) := by
  intro json' rest rest' hrest hrest' heq
  have hkind := kind_eq heq
  have hfields : ∀ field ∈ fields, Readable (prettyField (level + 1)) field :=
    fun field hfield => readable_field (hvalues field hfield)
  cases json' with
  | object fields' =>
      rw [prettyAt, prettyAt, prettyFields_eq_map, prettyFields_eq_map] at heq
      obtain ⟨rfl, hrests⟩ := enclose_inj rfl (by decide) hfields heq
      exact ⟨rfl, hrests⟩
  | _ => cases hkind

mutual

/-- Every value is readable, at whatever level it is written. -/
theorem readable : ∀ (json : Json) (level : Nat), Readable (prettyAt level) json
  | .null, level => readable_null level
  | .bool value, level => readable_bool level value
  | .nat value, level => readable_nat level value
  | .text value, level => readable_text level value
  | .array items, level => readable_array (readable_items items (level + 1))
  | .object fields, level => readable_object (readable_fields fields (level + 1))

theorem readable_items :
    ∀ (items : List Json) (level : Nat), ∀ item ∈ items, Readable (prettyAt level) item
  | [], _ => nofun
  | item :: rest, level =>
      List.forall_mem_cons.mpr ⟨readable item level, readable_items rest level⟩

theorem readable_fields :
    ∀ (fields : List (String × Json)) (level : Nat),
      ∀ field ∈ fields, Readable (prettyAt level) field.2
  | [], _ => nofun
  | (_, value) :: rest, level =>
      List.forall_mem_cons.mpr ⟨readable value level, readable_fields rest level⟩

end

/-- **Trees are read in one way.**  No two trees have the same text. -/
theorem pretty_injective : Function.Injective pretty := by
  intro json json' heq
  have hchars : (json.prettyAt 0).toList ++ [] = (json'.prettyAt 0).toList ++ [] :=
    congrArg (·.toList ++ []) heq
  exact (json.readable 0 json' [] [] nofun nofun hchars).1

end Json

end LineScript
