import LineScript.Proofs.Expr.Written
import Mathlib.Computability.RegularExpressions

/-!
# Numeric words are a regular language

The number literals of the language as a regular expression (`NumeralPattern.numeral`): a sign or
none, a coefficient, and an exponent or none, all of whose digits may have single underscores
between them.  Main statement: a word is numeric exactly if it matches, and nothing changes if each
byte of the word is read as a character of its own (`isNumericWord_iff_matches`).

## Strategy

Each part of the pattern matches the texts of one of the shapes of numerals (`Digits`, `DigitPart`,
`Pointed`, `Exponent`), which are known to be what the check accepts.  So nothing about the check
itself is needed here, and the parts are put together with the laws of concatenation, alternative
and star.

Two places need more than that.  In the pattern an underscore belongs to the digit behind it,
whereas in the shapes the two are constructors of their own, so that the induction on digits is on
the length (`mem_moreDigits`).  And a sign is optional, so it has to be known that nothing that
follows one begins with a sign itself (`mem_sign_mul`).

Bytes are compared with characters only at the end.  A numeric word consists of characters of a
single byte, and a text with any other character is not numeric in either reading.
-/

namespace LineScript

namespace NumeralPattern

open RegularExpression Text

/-! ## The pattern -/

/-- One of some characters. -/
def oneOf (chars : List Char) : RegularExpression Char := (chars.map char).sum

/-- An ASCII digit. -/
def digit : RegularExpression Char := oneOf "0123456789".toList

/-- Digits, each of them behind another one or behind an underscore that is. -/
def moreDigits : RegularExpression Char := star ((1 + char '_') * digit)

/-- One or more digits, with single underscores between digits. -/
def digits : RegularExpression Char := digit * moreDigits

/-- A sign, or nothing. -/
def sign : RegularExpression Char := 1 + oneOf ['+', '-']

/-- Digits, with a point behind, between or in front of them, or without one. -/
def coefficient : RegularExpression Char :=
  digits + digits * char '.' + digits * char '.' * digits + char '.' * digits

/-- A power of ten. -/
def exponent : RegularExpression Char := oneOf ['e', 'E'] * (sign * digits)

/-- A number literal. -/
def numeral : RegularExpression Char := sign * (coefficient * (1 + exponent))

/-! ## What the parts match -/

variable {text : List Char}

theorem mem_oneOf {chars : List Char} :
    text ∈ (oneOf chars).matches' ↔ ∃ c ∈ chars, text = [c] := by
  induction chars with
  | nil => simp [oneOf, matches', Language.notMem_zero]
  | cons c rest ih =>
      have hcons : oneOf (c :: rest) = char c + oneOf rest := rfl
      rw [hcons, matches'_add, Language.mem_add, matches'_char, ih, List.exists_mem_cons_iff]
      rfl

theorem isDigit_iff_mem {c : Char} : c.isDigit = true ↔ c ∈ "0123456789".toList := by
  constructor
  · intro hdigit
    obtain ⟨hlow, hhigh⟩ := toNat_of_isDigit hdigit
    have hten : ∀ n, 48 ≤ n → n ≤ 57 → Char.ofNat n ∈ "0123456789".toList := by decide
    rw [← Char.ofNat_toNat c]
    exact hten c.toNat hlow hhigh
  · intro hmem
    have hall : "0123456789".toList.all Char.isDigit = true := by decide
    exact List.all_eq_true.mp hall c hmem

theorem mem_digit : text ∈ digit.matches' ↔ ∃ c, c.isDigit = true ∧ text = [c] := by
  rw [digit, mem_oneOf]
  exact exists_congr fun c => and_congr_left' isDigit_iff_mem.symm

/-- One more digit, behind a digit or behind an underscore. -/
theorem mem_separatedDigit :
    text ∈ ((1 + char '_') * digit).matches' ↔
      ∃ c, c.isDigit = true ∧ (text = [c] ∨ text = ['_', c]) := by
  simp only [matches'_mul, matches'_add, Language.mem_mul, Language.mem_add, mem_digit]
  constructor
  · rintro ⟨_, rfl | rfl, _, ⟨c, hc, rfl⟩, rfl⟩
    · exact ⟨c, hc, .inl rfl⟩
    · exact ⟨c, hc, .inr rfl⟩
  · rintro ⟨c, hc, rfl | rfl⟩
    · exact ⟨[], .inl rfl, [c], ⟨c, hc, rfl⟩, rfl⟩
    · exact ⟨['_'], .inr rfl, [c], ⟨c, hc, rfl⟩, rfl⟩

theorem mem_moreDigits : text ∈ moreDigits.matches' ↔ Digits true text := by
  rw [moreDigits, matches'_star, Language.mem_kstar]
  constructor
  · rintro ⟨pieces, rfl, hpieces⟩
    induction pieces with
    | nil => exact .nil
    | cons piece rest ih =>
        obtain ⟨hpiece, hrest⟩ := List.forall_mem_cons.mp hpieces
        obtain ⟨c, hc, rfl | rfl⟩ := mem_separatedDigit.mp hpiece
        · exact .digit hc (ih hrest)
        · -- an underscore, and the digit that it stands in front of
          exact .separated (.digit hc (ih hrest)) (List.cons_ne_nil _ _)
  · intro hdigits
    -- an underscore and the digit behind it are one piece, so the induction is on the length
    induction hlength : text.length using Nat.strong_induction_on generalizing text with
    | h length ih =>
        subst hlength
        cases hdigits with
        | nil => exact ⟨[], rfl, nofun⟩
        | @digit _ c rest hc hrest =>
            obtain ⟨pieces, rfl, hpieces⟩ := ih _ (Nat.lt_succ_self _) hrest rfl
            exact ⟨[c] :: pieces, rfl, List.forall_mem_cons.mpr
              ⟨mem_separatedDigit.mpr ⟨c, hc, .inl rfl⟩, hpieces⟩⟩
        | separated hrest hne =>
            cases hrest with
            | nil => exact absurd rfl hne
            | @digit _ c rest hc hrest =>
                obtain ⟨pieces, rfl, hpieces⟩ :=
                  ih _ (Nat.lt_succ_of_lt (Nat.lt_succ_self _)) hrest rfl
                exact ⟨['_', c] :: pieces, rfl, List.forall_mem_cons.mpr
                  ⟨mem_separatedDigit.mpr ⟨c, hc, .inr rfl⟩, hpieces⟩⟩

theorem mem_digits : text ∈ digits.matches' ↔ DigitPart text := by
  simp only [digits, matches'_mul, Language.mem_mul, mem_digit, mem_moreDigits]
  constructor
  · rintro ⟨_, ⟨c, hc, rfl⟩, rest, hrest, rfl⟩
    exact ⟨.digit hc hrest, List.cons_ne_nil _ _⟩
  · rintro ⟨hdigits, hne⟩
    cases hdigits with
    | nil => exact absurd rfl hne
    | @digit _ c rest hc hrest => exact ⟨[c], ⟨c, hc, rfl⟩, rest, hrest, rfl⟩

theorem mem_sign : text ∈ sign.matches' ↔ text = [] ∨ text = ['+'] ∨ text = ['-'] := by
  rw [sign, matches'_add, Language.mem_add, mem_oneOf]
  simp [Language.mem_one]

theorem mem_coefficient : text ∈ coefficient.matches' ↔ DigitPart text ∨ Pointed text := by
  simp only [coefficient, matches'_mul, matches'_add, matches'_char, Language.mem_mul,
    Language.mem_add, mem_digits]
  constructor
  · rintro (((hdigits | ⟨whole, hwhole, _, rfl, rfl⟩) |
      ⟨_, ⟨whole, hwhole, _, rfl, rfl⟩, fraction, hfraction, rfl⟩) |
      ⟨_, rfl, fraction, hfraction, rfl⟩)
    · exact .inl hdigits
    · exact .inr (.mk hwhole.1 .nil (.inl hwhole.2))
    · rw [List.append_assoc]
      exact .inr (.mk hwhole.1 hfraction.1 (.inl hwhole.2))
    · exact .inr (.mk .nil hfraction.1 (.inr hfraction.2))
  · rintro (hdigits | @⟨whole, fraction, hwhole, hfraction, hne⟩)
    · exact .inl (.inl (.inl hdigits))
    · -- the alternative is decided by which side of the point has digits
      by_cases hwholeNil : whole = []
      · subst hwholeNil
        exact .inr ⟨['.'], rfl, fraction, ⟨hfraction, hne.resolve_left (fun h => h rfl)⟩, rfl⟩
      · by_cases hfractionNil : fraction = []
        · subst hfractionNil
          exact .inl (.inl (.inr ⟨whole, ⟨hwhole, hwholeNil⟩, ['.'], rfl, rfl⟩))
        · exact .inl (.inr ⟨whole ++ ['.'], ⟨whole, ⟨hwhole, hwholeNil⟩, ['.'], rfl, rfl⟩,
            fraction, ⟨hfraction, hfractionNil⟩, by simp⟩)

/-- A sign in front of a shape, which has none of its own. -/
theorem mem_sign_mul {unsigned : RegularExpression Char} {shape : List Char → Prop}
    (hshape : ∀ {text}, text ∈ unsigned.matches' ↔ shape text)
    (hhead : ∀ c rest, shape (c :: rest) → c.isDigit = true ∨ c = '.') :
    text ∈ (sign * unsigned).matches' ↔ shape (dropSign text) := by
  simp only [matches'_mul, Language.mem_mul, mem_sign, hshape]
  constructor
  · rintro ⟨_, rfl | rfl | rfl, rest, hrest, rfl⟩
    · cases rest with
      | nil => exact hrest
      | cons c more =>
          -- without a sign the text begins with a digit or a point
          have hsign : c ≠ '+' ∧ c ≠ '-' := by
            rcases hhead c more hrest with hdigit | rfl
            · exact ⟨fun h => by simp [h] at hdigit, fun h => by simp [h] at hdigit⟩
            · decide
          rwa [List.nil_append, dropSign_cons hsign.1 hsign.2]
    · exact hrest
    · exact hrest
  · intro hunsigned
    unfold dropSign at hunsigned
    split at hunsigned
    next rest => exact ⟨['+'], .inr (.inl rfl), rest, hunsigned, rfl⟩
    next rest => exact ⟨['-'], .inr (.inr rfl), rest, hunsigned, rfl⟩
    next => exact ⟨[], .inl rfl, text, hunsigned, rfl⟩

theorem mem_exponent : text ∈ exponent.matches' ↔ Exponent text := by
  have hsigned {power : List Char} :
      power ∈ (sign * digits).matches' ↔ DigitPart (dropSign power) :=
    mem_sign_mul mem_digits fun _ _ hdigits => .inl hdigits.1.head
  rw [exponent, matches'_mul, Language.mem_mul]
  constructor
  · rintro ⟨_, hletter, power, hpower, rfl⟩
    obtain ⟨letter, hmem, rfl⟩ := mem_oneOf.mp hletter
    exact .mk (by simpa using hmem) (hsigned.mp hpower)
  · rintro @⟨letter, power, hletter, hpower⟩
    exact ⟨[letter], mem_oneOf.mpr ⟨letter, by simpa using hletter, rfl⟩, power,
      hsigned.mpr hpower, rfl⟩

theorem mem_unsigned : text ∈ (coefficient * (1 + exponent)).matches' ↔ Numeral text := by
  simp only [matches'_mul, matches'_add, Language.mem_mul, Language.mem_add, mem_coefficient,
    mem_exponent]
  constructor
  · rintro ⟨front, hfront, power, hpower, rfl⟩
    exact .of_coefficient hfront hpower
  · intro hnumeral
    obtain ⟨front, power, rfl, hfront, hpower⟩ := hnumeral.exists_coefficient
    exact ⟨front, hfront, power, hpower, rfl⟩

theorem mem_numeral : text ∈ numeral.matches' ↔ isNumeric text = true :=
  (mem_sign_mul mem_unsigned fun _ _ => Numeral.head).trans isNumeric_iff.symm

end NumeralPattern

/-! ## Bytes -/

namespace Text

/-- The bytes of a text in UTF-8, each as the character with its number. -/
def byteCharacters (text : List Char) : List Char :=
  (text.flatMap String.utf8EncodeChar).map Char.ofUInt8

variable {text : List Char}

theorem byteCharacters_cons (c : Char) (rest : List Char) :
    byteCharacters (c :: rest) =
      (String.utf8EncodeChar c).map Char.ofUInt8 ++ byteCharacters rest := by
  rw [byteCharacters, List.flatMap_cons, List.map_append]
  rfl

theorem toNat_ofUInt8 (byte : UInt8) : (Char.ofUInt8 byte).toNat = byte.toNat := rfl

/-- An ASCII character is one byte, -/
theorem map_utf8EncodeChar_of_le {c : Char} (hascii : c.toNat ≤ 127) :
    (String.utf8EncodeChar c).map Char.ofUInt8 = [c] := by
  have hval : c.val.toNat ≤ 127 := hascii
  have hbyte : c.toNat < 256 := by omega
  rw [String.utf8EncodeChar.eq_1, if_pos hval, List.map_singleton, List.singleton_inj,
    ← Char.toNat_inj, toNat_ofUInt8, UInt8.toNat_ofNat']
  exact Nat.mod_eq_of_lt hbyte

/-- and each other one has a byte that is no ASCII character. -/
theorem exists_of_lt_toNat {c : Char} (hlarge : 127 < c.toNat) :
    ∃ d ∈ (String.utf8EncodeChar c).map Char.ofUInt8, 127 < d.toNat := by
  have hval : ¬ c.val.toNat ≤ 127 := Nat.not_le_of_lt hlarge
  -- the last byte of a character with several bytes
  have hlast : UInt8.ofNat (c.val.toNat % 64 + 128) ∈ String.utf8EncodeChar c := by
    rw [String.utf8EncodeChar.eq_1, if_neg hval]
    split
    · simp
    · split <;> simp
  refine ⟨_, List.mem_map_of_mem hlast, ?_⟩
  rw [toNat_ofUInt8, UInt8.toNat_ofNat']
  omega

theorem byteCharacters_eq_self (hascii : ∀ c ∈ text, c.toNat ≤ 127) :
    byteCharacters text = text := by
  induction text with
  | nil => rfl
  | cons c rest ih =>
      obtain ⟨hc, hrest⟩ := List.forall_mem_cons.mp hascii
      rw [byteCharacters_cons, map_utf8EncodeChar_of_le hc, ih hrest, List.singleton_append]

theorem ascii_of_byteCharacters (hascii : ∀ d ∈ byteCharacters text, d.toNat ≤ 127) :
    ∀ c ∈ text, c.toNat ≤ 127 := by
  intro c hc
  by_contra hlarge
  obtain ⟨d, hd, hlt⟩ := exists_of_lt_toNat (Nat.lt_of_not_le hlarge)
  have hmem : d ∈ byteCharacters text := by
    rw [byteCharacters, List.map_flatMap]
    exact List.mem_flatMap.mpr ⟨c, hc, hd⟩
  exact Nat.not_le_of_lt hlt (hascii d hmem)

theorem ascii_of_isNumeric (hnumeric : isNumeric text = true) : ∀ c ∈ text, c.toNat ≤ 127 := by
  intro c hc
  have hcharacter := isNumeralCharacter_of_isNumeric hnumeric c hc
  rw [isNumeralCharacter, Bool.or_eq_true] at hcharacter
  rcases hcharacter with hdigit | hother
  · exact (toNat_of_isDigit hdigit).2.trans (by decide)
  · have hall : "_+-.eE".toList.all (·.toNat ≤ 127) = true := by decide
    exact of_decide_eq_true (List.all_eq_true.mp hall c (List.contains_iff_mem.mp hother))

/-- It is the same to check the bytes, because no byte of another character is a digit, a sign, or
whatever else is in a number. -/
theorem isNumeric_byteCharacters (text : List Char) :
    isNumeric (byteCharacters text) = isNumeric text := by
  rw [Bool.eq_iff_iff]
  constructor
  · intro hnumeric
    have hascii := ascii_of_byteCharacters (ascii_of_isNumeric hnumeric)
    rwa [byteCharacters_eq_self hascii] at hnumeric
  · intro hnumeric
    rwa [byteCharacters_eq_self (ascii_of_isNumeric hnumeric)]

end Text

open NumeralPattern in
/-- **Numeric words are a regular language.**  A word is numeric exactly if it matches the pattern
of number literals, and it is numeric exactly if its bytes are, each read as a character. -/
theorem isNumericWord_iff_matches (word : String) :
    (isNumericWord word = true ↔ word.toList ∈ numeral.matches') ∧
      Text.isNumeric (word.toUTF8.data.toList.map Char.ofUInt8) = isNumericWord word := by
  have hbytes : word.toUTF8.data.toList = word.toList.flatMap String.utf8EncodeChar := by
    rw [← String.ofList_toList (s := word), String.toUTF8_eq_toByteArray, String.toByteArray_ofList,
      List.utf8Encode, List.toList_data_toByteArray, String.toList_ofList]
  rw [hbytes]
  exact ⟨mem_numeral.symm, Text.isNumeric_byteCharacters word.toList⟩

end LineScript
