/-!
# Numerals

`isFloat` recognises the texts of floating point numbers: an optional sign, then digits with an
optional point on either side of them and an optional exponent, or one of the words `inf`,
`infinity` and `nan` in any case.  `isNumeric` recognises the number literals of the language,
which differ in two ways: they contain a digit, so that the three words stay names, and single
underscores may separate their digits.
-/

namespace LineScript.Text

/-- Removes one leading sign. -/
def dropSign : List Char → List Char
  | '+' :: rest => rest
  | '-' :: rest => rest
  | text => text

/-- One or more ASCII digits and nothing else. -/
def isDigits (text : List Char) : Bool := !text.isEmpty && text.all Char.isDigit

/-- Nothing, or `e` or `E` followed by digits that may carry a sign. -/
def isExponent : List Char → Bool
  | [] => true
  | c :: rest => (c == 'e' || c == 'E') && isDigits (dropSign rest)

/-- Digits, with an optional point that has a digit on at least one side, then an exponent. -/
def isDecimal (text : List Char) : Bool :=
  let whole := text.takeWhile Char.isDigit
  match text.dropWhile Char.isDigit with
  | '.' :: rest =>
      (!whole.isEmpty || !(rest.takeWhile Char.isDigit).isEmpty) &&
        isExponent (rest.dropWhile Char.isDigit)
  | rest => !whole.isEmpty && isExponent rest

/-- The numbers that are written as words. -/
def isNumberWord (text : List Char) : Bool :=
  ["inf".toList, "infinity".toList, "nan".toList].contains (text.map Char.toLower)

/-- The text of a floating point number. -/
def isFloat (text : List Char) : Bool :=
  let unsigned := dropSign text
  isDecimal unsigned || isNumberWord unsigned

/-- Whether every underscore stands between two digits; `afterDigit` says whether the character
before the text is a digit. -/
def underscoresSeparate (afterDigit : Bool) : List Char → Bool
  | [] => true
  | c :: rest =>
      if c = '_' then
        afterDigit && rest.head?.any Char.isDigit && underscoresSeparate false rest
      else
        underscoresSeparate c.isDigit rest

/-- A number literal: it contains a digit, its underscores separate digits, and without them it is
the text of a floating point number. -/
def isNumeric (text : List Char) : Bool :=
  text.any Char.isDigit && underscoresSeparate false text && isFloat (text.filter (· != '_'))

end LineScript.Text
