import LineScript.Config.Node
import LineScript.Text.Numeral

/-!
# Bare scalars

Numbers, truth values, dates and times stand in a document without quotes.  `ofWord?` tells what
such a word is.  Of numbers only that they are well-formed and in range matters here: integers have
64 bits with a sign, and a float does not exceed the largest double.
-/

namespace LineScript.Config

open Text (dropSign)

/-! ## Numbers -/

/-- Digits that single underscores may separate, after a digit. -/
def areSeparatedRest (isDigit : Char → Bool) : List Char → Bool
  | [] => true
  | '_' :: c :: rest => isDigit c && areSeparatedRest isDigit rest
  | c :: rest => isDigit c && areSeparatedRest isDigit rest

/-- One or more digits that single underscores may separate. -/
def areSeparated (isDigit : Char → Bool) : List Char → Bool
  | [] => false
  | c :: rest => isDigit c && areSeparatedRest isDigit rest

/-- The value of a digit of any base up to sixteen. -/
def digitValue? (c : Char) : Option Nat :=
  if c.isDigit then some (c.toNat - '0'.toNat)
  else if 'a' ≤ c && c ≤ 'f' then some (c.toNat - 'a'.toNat + 10)
  else if 'A' ≤ c && c ≤ 'F' then some (c.toNat - 'A'.toNat + 10)
  else none

/-- Whether a character is a digit of a base. -/
def isDigitOf (base : Nat) (c : Char) : Bool := (digitValue? c).any (· < base)

/-- The number that digits and underscores spell. -/
def valueOf (base : Nat) (digits : List Char) : Nat :=
  (digits.filterMap digitValue?).foldl (fun value digit => value * base + digit) 0

/-- The whole part of a decimal number: no zero in front of other digits. -/
def isWhole : List Char → Bool
  | ['0'] => true
  | '0' :: _ => false
  | digits => areSeparated (isDigitOf 10) digits

/-- An integer in base ten with an optional sign, or without one in base two, eight or sixteen. -/
def isInteger (word : List Char) : Bool :=
  let bound := Nat.pow 2 63
  match word with
  | '0' :: 'x' :: digits => areSeparated (isDigitOf 16) digits && valueOf 16 digits < bound
  | '0' :: 'o' :: digits => areSeparated (isDigitOf 8) digits && valueOf 8 digits < bound
  | '0' :: 'b' :: digits => areSeparated (isDigitOf 2) digits && valueOf 2 digits < bound
  | _ =>
      let digits := dropSign word
      isWhole digits &&
        valueOf 10 digits < if word.head? = some '-' then bound + 1 else bound

/-- Whether `mantissa * 10 ^ exponent` rounds to more than the largest double.  Far exponents are
decided by the number of digits alone. -/
def exceedsDouble (mantissa : Nat) (exponent : Int) : Bool :=
  let digits : Int := (Nat.toDigits 10 mantissa).length
  if mantissa = 0 || digits + exponent ≤ 308 then false
  else if 310 ≤ digits + exponent then true
  else
    let bound := Nat.pow 2 1024 - Nat.pow 2 970
    if 0 ≤ exponent then bound ≤ mantissa * Nat.pow 10 exponent.toNat
    else bound * Nat.pow 10 (-exponent).toNat ≤ mantissa

/-- The value of an exponent with an optional sign. -/
def exponentOf (word : List Char) : Int :=
  let value : Int := valueOf 10 (dropSign word)
  if word.head? = some '-' then -value else value

/-- A float without its sign: a whole part with a fraction, an exponent, or both.  `bounded` asks
that it does not exceed the largest double. -/
def isUnsignedFloat (bounded : Bool) (word : List Char) : Bool :=
  let isMark (c : Char) : Bool := c == 'e' || c == 'E'
  let mantissa := word.takeWhile (!isMark ·)
  let exponent := word.dropWhile (!isMark ·)
  let whole := mantissa.takeWhile (· != '.')
  let fraction := mantissa.dropWhile (· != '.')
  let digits := fraction.tail.filter (· != '_')
  isWhole whole &&
    (fraction.isEmpty || areSeparated (isDigitOf 10) fraction.tail) &&
    (exponent.isEmpty || areSeparated (isDigitOf 10) (dropSign exponent.tail)) &&
    !(fraction.isEmpty && exponent.isEmpty) &&
    !(bounded && exceedsDouble (valueOf 10 (whole ++ digits))
      (exponentOf exponent.tail - digits.length))

/-- A float, or one of the words for infinity and for what is no number. -/
def isFloatWord (word : List Char) : Bool :=
  let unsigned := dropSign word
  unsigned == "inf".toList || unsigned == "nan".toList ||
    isUnsignedFloat (word.head? != some '-') unsigned

/-! ## Dates and times -/

/-- Digits of a fixed number whose value lies in a range. -/
def isField (width low high : Nat) (digits : List Char) : Bool :=
  digits.length = width && digits.all Char.isDigit &&
    low ≤ valueOf 10 digits && valueOf 10 digits ≤ high

/-- The number of days of a month. -/
def daysOf (year month : Nat) : Nat :=
  if month = 2 then if year % 4 = 0 && (year % 100 != 0 || year % 400 = 0) then 29 else 28
  else if [4, 6, 9, 11].contains month then 30
  else 31

/-- A date. -/
def isDate (word : List Char) : Bool :=
  let year := word.take 4
  let month := (word.drop 5).take 2
  isField 4 0 9999 year && isField 2 1 12 month && (word.drop 4).head? = some '-' &&
    (word.drop 7).head? = some '-' &&
    isField 2 1 (daysOf (valueOf 10 year) (valueOf 10 month)) (word.drop 8)

/-- An hour and a minute. -/
def isClock (word : List Char) : Bool :=
  isField 2 0 23 (word.take 2) && (word.drop 2).head? = some ':' && isField 2 0 59 (word.drop 3)

/-- The canonical form of a fraction of a second: nine digits at most and no zeros at its end. -/
def fraction? (word : List Char) : Option (List Char) :=
  match word with
  | [] => some []
  | '.' :: digits =>
      if Text.isDigits digits then
        let kept := ((digits.take 9).reverse.dropWhile (· == '0')).reverse
        some (if kept.isEmpty then [] else '.' :: kept)
      else none
  | _ => none

/-- The canonical form of a time. -/
def time? (word : List Char) : Option (List Char) :=
  if isClock (word.take 5) && (word.drop 5).head? = some ':' &&
      isField 2 0 60 ((word.drop 6).take 2) then
    (fraction? (word.drop 8)).map (word.take 8 ++ ·)
  else none

/-- The canonical form of an offset from universal time. -/
def offset? (word : List Char) : Option (List Char) :=
  match word with
  | [] => some []
  | ['Z'] | ['z'] => some ['Z']
  | sign :: clock =>
      if (sign == '+' || sign == '-') && isClock clock then
        some ((if valueOf 10 clock = 0 then '+' else sign) :: clock)
      else none

/-- The canonical form of a time and an optional offset. -/
def zonedTime? (word : List Char) : Option (List Char) := do
  let isZone (c : Char) : Bool := ['Z', 'z', '+', '-'].contains c
  let time ← time? (word.takeWhile (!isZone ·))
  let offset ← offset? (word.dropWhile (!isZone ·))
  return time ++ offset

/-- The canonical form of a date, a time, or a date and a time with a letter between them. -/
def moment? (word : List Char) : Option (List Char) :=
  if isDate (word.take 10) then
    match word.drop 10 with
    | [] => some word
    | c :: time =>
        if c == 'T' || c == 't' then (zonedTime? time).map (word.take 10 ++ 'T' :: ·) else none
  else time? word

/-! ## Words -/

/-- The value that a bare word is. -/
def ofWord? (word : List Char) : Option Node :=
  if word == "true".toList then some (.flag true)
  else if word == "false".toList then some (.flag false)
  else match moment? word with
    | some moment => some (.moment (String.ofList moment))
    | none => if isInteger word || isFloatWord word then some .number else none

/-- Characters of bare words. -/
def isWordChar (c : Char) : Bool := c.isAlphanum || "+-_.:".toList.contains c

/-- Reads a bare word.  A single blank between a date and a time belongs to the word. -/
def readWord (text : List Char) : Option (Node × List Char) :=
  let word := text.takeWhile isWordChar
  let rest := text.dropWhile isWordChar
  match rest with
  | ' ' :: c :: more =>
      if isDate word && c.isDigit then
        let time := (c :: more).takeWhile isWordChar
        (ofWord? (word ++ 'T' :: time)).map (·, (c :: more).dropWhile isWordChar)
      else (ofWord? word).map (·, rest)
  | _ => (ofWord? word).map (·, rest)

end LineScript.Config
