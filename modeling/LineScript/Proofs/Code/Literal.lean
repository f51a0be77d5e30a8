import LineScript.Code.Literal

/-!
# Literals mean their texts

The rules of Python for what stands between the quotes of a literal, as a function: `decode?` gives
the text that a literal means.  Main statements: a text in double quotes means this text
(`decode?_doubleQuoted`), and so does a text without line breaks in single quotes
(`decode?_singleQuoted`).

A character may be written by its name; which names there are is left open, as a parameter.

## Strategy

The function reads all escapes that a literal may contain, although a quoted text only uses a few of
them: it is the meaning of the literal, and must not know where the literal comes from.  Each escape
reads at least one character, which is what it ends on (`suffix_of_readEscape`).

A text is quoted character by character, and `decodeBody?_flatMap` reduces the claim to what one
character becomes: whatever is behind it, its escape is read as the character.  For double quotes
these are the control characters, the quote and the backslash (`decodeBody?_escapeDouble`), for
single quotes the latter two only, which is why line breaks have to be excluded there
(`decodeBody?_escapeSingle`).
-/

namespace LineScript.Literal

/-! ## Escape sequences -/

/-- The value of a digit, for bases up to sixteen. -/
def digit? (base : Nat) (c : Char) : Option Nat :=
  let value? :=
    if c.isDigit then some (c.toNat - '0'.toNat)
    else if 'a' ≤ c ∧ c ≤ 'f' then some (c.toNat - 'a'.toNat + 10)
    else if 'A' ≤ c ∧ c ≤ 'F' then some (c.toNat - 'A'.toNat + 10)
    else none
  value?.filter (· < base)

/-- The character whose number digits spell; there is none for the numbers of surrogates. -/
def charOfDigits? (base : Nat) (digits : List Char) : Option Char := do
  let values ← digits.mapM (digit? base)
  let number := values.foldl (fun number value => base * number + value) 0
  if number.isValidChar then some (Char.ofNat number) else none

/-- The character that one letter or sign behind a backslash stands for. -/
def simpleEscape? : Char → Option Char
  | '\\' => some '\\'
  | '\x27' => some '\x27'
  | '"' => some '"'
  | 'a' => some '\x07'
  | 'b' => some '\x08'
  | 'f' => some '\x0c'
  | 'n' => some '\n'
  | 'r' => some '\r'
  | 't' => some '\t'
  | 'v' => some '\x0b'
  | _ => none

/-- A character with a fixed number of hexadecimal digits, and the rest of a text. -/
def readHex (count : Nat) (text : List Char) : Option (List Char × List Char) :=
  if text.length < count then none
  else (charOfDigits? 16 (text.take count)).map fun c => ([c], text.drop count)

/-- A character with one to three octal digits, and the rest of a text. -/
def readOctal (text : List Char) : Option (List Char × List Char) :=
  let digits := (text.take 3).takeWhile fun c => (digit? 8 c).isSome
  (charOfDigits? 8 digits).map fun c => ([c], text.drop digits.length)

/-- A character with a name in braces, and the rest of a text. -/
def readNamed (named : String → Option Char) : List Char → Option (List Char × List Char)
  | '\x7b' :: rest =>
      let name := rest.takeWhile (· != '\x7d')
      match rest.drop name.length with
      | _ :: after => (named (String.ofList name)).map fun c => ([c], after)
      | [] => none
  | _ => none

/-- What stands behind a backslash: the characters that it means together with the backslash, and
the rest of the text.  A line break behind a backslash means nothing, and a backslash in front of
any other character stays. -/
def readEscape (named : String → Option Char) : List Char → Option (List Char × List Char)
  | [] => none
  | '\r' :: '\n' :: rest | '\r' :: rest | '\n' :: rest => some ([], rest)
  | 'x' :: rest => readHex 2 rest
  | 'u' :: rest => readHex 4 rest
  | 'U' :: rest => readHex 8 rest
  | 'N' :: rest => readNamed named rest
  | c :: rest =>
      match simpleEscape? c with
      | some meant => some ([meant], rest)
      | none =>
          if (digit? 8 c).isSome then readOctal (c :: rest) else some (['\\', c], rest)

theorem suffix_of_readHex {count : Nat} {text value rest : List Char}
    (hread : readHex count text = some (value, rest)) : rest <:+ text := by
  unfold readHex at hread
  split at hread
  · cases hread
  · obtain ⟨c, -, heq⟩ := Option.map_eq_some_iff.mp hread
    cases heq
    exact List.drop_suffix count text

theorem suffix_of_readOctal {text value rest : List Char}
    (hread : readOctal text = some (value, rest)) : rest <:+ text := by
  obtain ⟨c, -, heq⟩ := Option.map_eq_some_iff.mp hread
  cases heq
  exact List.drop_suffix _ text

theorem suffix_of_readNamed {named : String → Option Char} {text value rest : List Char}
    (hread : readNamed named text = some (value, rest)) : rest <:+ text := by
  unfold readNamed at hread
  split at hread
  next behind =>
    simp only at hread
    split at hread
    next brace after hdrop =>
      obtain ⟨c, -, heq⟩ := Option.map_eq_some_iff.mp hread
      cases heq
      have hbehind : brace :: rest <:+ behind := hdrop ▸ List.drop_suffix _ behind
      exact ((List.suffix_cons brace rest).trans hbehind).trans (List.suffix_cons _ behind)
    next => cases hread
  next => cases hread

/-- Behind an escape sequence stands a final part of the text. -/
theorem suffix_of_readEscape {named : String → Option Char} {text value rest : List Char}
    (hread : readEscape named text = some (value, rest)) : rest <:+ text := by
  unfold readEscape at hread
  split at hread
  case h_1 => cases hread
  case h_2 behind =>
    cases hread
    exact (List.suffix_cons _ rest).trans (List.suffix_cons _ _)
  case h_3 | h_4 =>
    cases hread
    exact List.suffix_cons _ rest
  case h_5 | h_6 | h_7 => exact (suffix_of_readHex hread).trans (List.suffix_cons _ _)
  case h_8 => exact (suffix_of_readNamed hread).trans (List.suffix_cons _ _)
  -- octal digits, or an escape that means nothing
  case h_9 c behind _ _ _ _ _ _ _ =>
    split at hread
    · cases hread
      exact List.suffix_cons _ rest
    · split at hread
      · exact suffix_of_readOctal hread
      · cases hread
        exact List.suffix_cons _ rest

/-! ## Literals -/

variable (named : String → Option Char)

/-- The text that is meant by what stands behind an opening quote.  The first such quote without a
backslash has to be the end; line breaks without one are not allowed. -/
def decodeBody? (quote : Char) (text : List Char) : Option (List Char) :=
  match text with
  | [] => none
  | '\\' :: rest =>
      match h : readEscape named rest with
      | none => none
      | some (value, after) =>
          have := (suffix_of_readEscape h).length_le
          (decodeBody? quote after).map (value ++ ·)
  | c :: rest =>
      if c = quote then if rest.isEmpty then some [] else none
      else if c = '\n' ∨ c = '\r' then none
      else (decodeBody? quote rest).map (c :: ·)
termination_by text.length
decreasing_by all_goals (simp only [List.length_cons]; omega)

/-- The text that a literal means, if it is one in single or double quotes. -/
def decode? (literal : String) : Option String :=
  match literal.toList with
  | '"' :: rest => (decodeBody? named '"' rest).map String.ofList
  | '\x27' :: rest => (decodeBody? named '\x27' rest).map String.ofList
  | _ => none

variable {named} {quote c : Char} {rest : List Char}

theorem readEscape_simple {meant : Char} (hsimple : simpleEscape? c = some meant)
    (rest : List Char) : readEscape named (c :: rest) = some ([meant], rest) := by
  unfold simpleEscape? at hsimple
  split at hsimple
  case h_11 => cases hsimple
  all_goals
    cases hsimple
    rfl

theorem decodeBody?_escape {value after : List Char}
    (hread : readEscape named rest = some (value, after)) :
    decodeBody? named quote ('\\' :: rest) = (decodeBody? named quote after).map (value ++ ·) := by
  rw [decodeBody?]
  split
  next hnone =>
    rw [hread] at hnone
    cases hnone
  next other behind hsome =>
    rw [hread] at hsome
    cases hsome
    rfl

theorem decodeBody?_plain (hbackslash : c ≠ '\\') (hquote : c ≠ quote)
    (hbreak : ¬ (c = '\n' ∨ c = '\r')) :
    decodeBody? named quote (c :: rest) = (decodeBody? named quote rest).map (c :: ·) := by
  rw [decodeBody?.eq_def]
  split
  next heq => cases heq
  next heq => exact absurd (List.cons.inj heq).1 hbackslash
  next heq =>
    cases heq
    rw [if_neg hquote, if_neg hbreak]

/-- What is written for a character between double quotes means this character. -/
theorem decodeBody?_escapeDouble (c : Char) (rest : List Char) :
    decodeBody? named '"' (Code.escapeDouble c ++ rest) =
      (decodeBody? named '"' rest).map (c :: ·) := by
  unfold Code.escapeDouble
  split
  case h_6 hbackslash hquote hfeed hreturn _ =>
    exact decodeBody?_plain hbackslash hquote (not_or.mpr ⟨hfeed, hreturn⟩)
  all_goals exact decodeBody?_escape (readEscape_simple rfl rest)

/-- What is written for a character between single quotes means this character, unless it is a line
break. -/
theorem decodeBody?_escapeSingle (hbreak : ¬ (c = '\n' ∨ c = '\r')) (rest : List Char) :
    decodeBody? named '\x27' (Code.escapeSingle c ++ rest) =
      (decodeBody? named '\x27' rest).map (c :: ·) := by
  unfold Code.escapeSingle
  simp only [beq_iff_eq]
  split
  next hbackslash =>
    subst hbackslash
    exact decodeBody?_escape (readEscape_simple rfl rest)
  next hbackslash =>
    split
    next hquote =>
      subst hquote
      exact decodeBody?_escape (readEscape_simple rfl rest)
    next hquote => exact decodeBody?_plain hbackslash hquote hbreak

/-- A body means its text if each piece of it means its character. -/
theorem decodeBody?_flatMap {escape : Char → List Char} {chars : List Char}
    (hquote : quote ≠ '\\')
    (hescape : ∀ c ∈ chars, ∀ rest, decodeBody? named quote (escape c ++ rest) =
      (decodeBody? named quote rest).map (c :: ·)) :
    decodeBody? named quote (chars.flatMap escape ++ [quote]) = some chars := by
  induction chars with
  | nil =>
      rw [decodeBody?.eq_def]
      split
      next heq => cases heq
      -- the quote behind the last character is no backslash
      next heq => exact absurd (List.cons.inj heq).1 hquote
      next heq =>
        cases heq
        rw [if_pos rfl]
        rfl
  | cons c rest ih =>
      obtain ⟨hc, hrest⟩ := List.forall_mem_cons.mp hescape
      rw [List.flatMap_cons, List.append_assoc, hc, ih hrest, Option.map_some]

/-- **Literals mean their texts.**  A text in double quotes means this text. -/
theorem decode?_doubleQuoted (named : String → Option Char) (text : String) :
    decode? named (Code.doubleQuoted text) = some text := by
  have hbody : decodeBody? named '"' (text.toList.flatMap Code.escapeDouble ++ ['"']) =
      some text.toList :=
    decodeBody?_flatMap (by decide) fun c _ => decodeBody?_escapeDouble c
  rw [Code.doubleQuoted, decode?, String.toList_ofList]
  simp only [List.cons_append]
  rw [hbody, Option.map_some, String.ofList_toList]

/-- A text without line breaks in single quotes means this text. -/
theorem decode?_singleQuoted (named : String → Option Char) {text : String}
    (hbreak : ∀ c ∈ text.toList, ¬ (c = '\n' ∨ c = '\r')) :
    decode? named (Code.singleQuoted text) = some text := by
  have hbody : decodeBody? named '\x27' (text.toList.flatMap Code.escapeSingle ++ ['\x27']) =
      some text.toList :=
    decodeBody?_flatMap (by decide) fun c hc => decodeBody?_escapeSingle (hbreak c hc)
  rw [Code.singleQuoted, decode?, String.toList_ofList]
  simp only [List.cons_append]
  rw [hbody, Option.map_some, String.ofList_toList]

end LineScript.Literal
