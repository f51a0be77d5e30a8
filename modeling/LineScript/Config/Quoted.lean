import LineScript.Config.Scalar

/-!
# Quoted texts

Texts stand in double quotes, where a backslash begins an escape, or in single quotes, where it
does not.  Three quotes instead of one let a text go over several lines.
-/

namespace LineScript.Config

/-- A character that may stand in comments and texts: no control character but the tab. -/
def isPrintable (c : Char) : Bool := c == '\t' || (0x20 ≤ c.toNat && c.toNat != 0x7F)

/-- Blanks within a line. -/
def isSpace (c : Char) : Bool := c == ' ' || c == '\t'

/-- What comes after a line break at the start of a text. -/
def afterNewline? : List Char → Option (List Char)
  | '\n' :: rest => some rest
  | '\r' :: '\n' :: rest => some rest
  | _ => none

/-- The character with a code point in base sixteen, which must have as many digits as given. -/
def scalar? (digits : List Char) : Option Char :=
  if digits.all (isDigitOf 16) then
    let value := valueOf 16 digits
    if value.isValidChar then some (Char.ofNat value) else none
  else none

/-- Reads an escape after its backslash. -/
def readEscape : List Char → Option (Char × List Char)
  | 'b' :: rest => some ('\x08', rest)
  | 't' :: rest => some ('\t', rest)
  | 'n' :: rest => some ('\n', rest)
  | 'f' :: rest => some ('\x0c', rest)
  | 'r' :: rest => some ('\r', rest)
  | '"' :: rest => some ('"', rest)
  | '\\' :: rest => some ('\\', rest)
  | 'u' :: rest =>
      if rest.length < 4 then none else (scalar? (rest.take 4)).map (·, rest.drop 4)
  | 'U' :: rest =>
      if rest.length < 8 then none else (scalar? (rest.take 8)).map (·, rest.drop 8)
  | _ => none

/-- Reads a text on one line up to its closing double quote.  The number bounds its length. -/
def readBasic : Nat → List Char → Option (List Char × List Char)
  | 0, _ => none
  | bound + 1, text =>
      match text with
      | [] => none
      | '"' :: rest => some ([], rest)
      | '\\' :: rest => do
          let (c, rest) ← readEscape rest
          let (text, rest) ← readBasic bound rest
          return (c :: text, rest)
      | c :: rest =>
          if isPrintable c then (readBasic bound rest).map fun (text, rest) => (c :: text, rest)
          else none

/-- Reads a text on one line up to its closing single quote. -/
def readLiteral (text : List Char) : Option (List Char × List Char) :=
  let inside := text.takeWhile (· != '\x27')
  match text.dropWhile (· != '\x27') with
  | _ :: rest => if inside.all isPrintable then some (inside, rest) else none
  | [] => none

/-- The closing quotes of a text of several lines, of which there are three; up to two more in
front of them belong to the text. -/
def closing? (quote : Char) (text : List Char) : Option (List Char × List Char) :=
  let count := min 5 (text.takeWhile (· == quote)).length
  if 3 ≤ count then some (List.replicate (count - 3) quote, text.drop count) else none

/-- What comes after a backslash at the end of a line: line breaks and blanks are skipped up to
the next character. -/
def afterContinuation? (text : List Char) : Option (List Char) :=
  match afterNewline? (text.dropWhile isSpace) with
  | none => none
  | some rest => some (skip rest.length rest)
where
  /-- Skips blanks and line breaks; the number bounds how many. -/
  skip : Nat → List Char → List Char
    | 0, text => text
    | bound + 1, text =>
        match text with
        | ' ' :: rest => skip bound rest
        | '\t' :: rest => skip bound rest
        | '\n' :: rest => skip bound rest
        | '\r' :: '\n' :: rest => skip bound rest
        | text => text

/-- Reads a text of several lines up to its three closing quotes.  Only between double quotes does
a backslash mean something.  The number bounds the length of the text. -/
def readLines (quote : Char) : Nat → List Char → Option (List Char × List Char)
  | 0, _ => none
  | bound + 1, text =>
      match closing? quote text with
      | some result => some result
      | none =>
          match afterNewline? text with
          | some rest => (readLines quote bound rest).map fun (text, rest) => ('\n' :: text, rest)
          | none =>
              match text with
              | [] => none
              | c :: rest =>
                  if c == '\\' && quote == '"' then
                    match afterContinuation? rest with
                    | some rest => readLines quote bound rest
                    | none => do
                        let (c, rest) ← readEscape rest
                        let (text, rest) ← readLines quote bound rest
                        return (c :: text, rest)
                  else if isPrintable c then
                    (readLines quote bound rest).map fun (text, rest) => (c :: text, rest)
                  else none

/-- Reads a text on one line, from its opening quote on. -/
def readQuoted : List Char → Option (List Char × List Char)
  | '"' :: rest => readBasic (rest.length + 1) rest
  | '\x27' :: rest => readLiteral rest
  | _ => none

/-- Reads a text, from its opening quotes on.  A line break directly behind three opening quotes
is no part of the text. -/
def readText (text : List Char) : Option (List Char × List Char) :=
  match text with
  | '"' :: '"' :: '"' :: rest => lines '"' rest
  | '\x27' :: '\x27' :: '\x27' :: rest => lines '\x27' rest
  | text => readQuoted text
where
  /-- Reads a text of several lines behind its opening quotes. -/
  lines (quote : Char) (rest : List Char) : Option (List Char × List Char) :=
    readLines quote (rest.length + 1) ((afterNewline? rest).getD rest)

end LineScript.Config
