import LineScript.Config.Quoted

/-!
# Reading configuration documents

A document is a sequence of headers and of keys with values.  Reading is total: numbers that bound
the loops are the lengths of what is read, and values nest no deeper than `maxNesting`.
-/

namespace LineScript.Config

/-- How many brackets and braces values may stand in, and how many parts keys may have. -/
def maxNesting : Nat := 79

/-! ## Keys -/

/-- Characters of keys without quotes. -/
def isBareKeyChar (c : Char) : Bool := c.isAlphanum || c == '_' || c == '-'

/-- Reads one part of a key. -/
def readKeyPart (text : List Char) : Option (String × List Char) :=
  match text with
  | '"' :: _ | '\x27' :: _ => (readQuoted text).map fun (key, rest) => (String.ofList key, rest)
  | text =>
      let key := text.takeWhile isBareKeyChar
      if key.isEmpty then none else some (String.ofList key, text.dropWhile isBareKeyChar)

/-- Reads the parts of a key with dots between them, and the blanks around each.  The number bounds
how many parts there are. -/
def readKeyParts : Nat → List Char → Option (List String × List Char)
  | 0, _ => none
  | bound + 1, text => do
      let (part, rest) ← readKeyPart (text.dropWhile isSpace)
      match rest.dropWhile isSpace with
      | '.' :: rest => do
          let (parts, rest) ← readKeyParts bound rest
          return (part :: parts, rest)
      | rest => return ([part], rest)

/-- Reads a key as its parts before the last and its last part. -/
def readKey (text : List Char) : Option ((List String × String) × List Char) := do
  let (parts, rest) ← readKeyParts maxNesting text
  let last ← parts.getLast?
  return ((parts.dropLast, last), rest)

/-! ## Values -/

/-- Skips blanks, line breaks and comments between the items of an array.  The number bounds how
many there are. -/
def skipLayout : Nat → List Char → List Char
  | 0, text => text
  | bound + 1, text =>
      let text := text.dropWhile isSpace
      match afterNewline? text with
      | some rest => skipLayout bound rest
      | none =>
          match text with
          | '#' :: rest =>
              match afterNewline? (rest.dropWhile isPrintable) with
              | some rest => skipLayout bound rest
              | none => text
          | text => text

/-- Reads the items of an array and its closing bracket.  The number bounds how many items there
are. -/
def readArray (value : List Char → Option (Node × List Char)) :
    Nat → List Char → Option (List Node × List Char)
  | 0, _ => none
  | bound + 1, text =>
      match skipLayout text.length text with
      | ']' :: rest => some ([], rest)
      | text => do
          let (item, rest) ← value text
          match skipLayout rest.length rest with
          | ',' :: rest => do
              let (items, rest) ← readArray value bound rest
              return (item :: items, rest)
          | ']' :: rest => return ([item], rest)
          | _ => none

/-- Reads a key, an equals sign and a value. -/
def readAssignment (value : List Char → Option (Node × List Char)) (text : List Char) :
    Option (((List String × String) × Node) × List Char) := do
  let (key, rest) ← readKey text
  match rest with
  | '=' :: rest => do
      let (node, rest) ← value (rest.dropWhile isSpace)
      return ((key, node), rest)
  | _ => none

/-- Reads the entries of an inline table and its closing brace; `entries` are those before.  The
number bounds how many more there are. -/
def readInline (value : List Char → Option (Node × List Char)) :
    Nat → Entries → List Char → Option (Entries × List Char)
  | 0, _, _ => none
  | bound + 1, entries, text => do
      let (((parents, key), node), rest) ← readAssignment value text
      let entries ← insertDotted key node parents entries
      match rest.dropWhile isSpace with
      | ',' :: rest => readInline value bound entries rest
      | '}' :: rest => return (entries, rest)
      | _ => none

/-- Reads a value.  The number bounds how deep it may nest. -/
def readValue : Nat → List Char → Option (Node × List Char)
  | depth, text =>
    match depth, text with
    | depth + 1, '[' :: rest =>
        (readArray (readValue depth) (rest.length + 1) rest).map fun (items, rest) =>
          (.array items, rest)
    | depth + 1, '{' :: rest =>
        match rest.dropWhile isSpace with
        | '}' :: rest => some (.table .inline [], rest)
        | rest => (readInline (readValue depth) (rest.length + 1) [] rest).map
            fun (entries, rest) => (.table .inline entries, rest)
    | _, '"' :: rest => quoted ('"' :: rest)
    | _, '\x27' :: rest => quoted ('\x27' :: rest)
    | _, text => readWord text
where
  /-- Reads a text in quotes. -/
  quoted (text : List Char) : Option (Node × List Char) :=
    (readText text).map fun (text, rest) => (.text (String.ofList text), rest)

/-! ## Documents -/

/-- Skips a comment, if there is one. -/
def skipComment : List Char → List Char
  | '#' :: rest => rest.dropWhile isPrintable
  | text => text

/-- What comes after the end of a line: blanks, an optional comment, and a line break or the end
of the text. -/
def afterLine? (text : List Char) : Option (List Char) :=
  match skipComment (text.dropWhile isSpace) with
  | [] => some []
  | rest => afterNewline? rest

/-- Reads a header behind its opening brackets: its path and the text behind its line. -/
def readHeader (closing : List Char) (text : List Char) :
    Option ((List String × String) × List Char) := do
  let (path, rest) ← readKey text
  if closing.isPrefixOf rest then
    let rest ← afterLine? (rest.drop closing.length)
    return (path, rest)
  else none

/-- Reads the lines of a document into the tables of the lines before; `path` is the path of
the header that they stand under.  The number bounds how many lines there are. -/
def readLinesInto : Nat → (path : List String) → Entries → List Char → Option Entries
  | 0, _, _, _ => none
  | bound + 1, path, root, text =>
      match text.dropWhile isSpace with
      | [] => some root
      | '[' :: '[' :: rest => do
          let ((parents, key), rest) ← readHeader [']', ']'] rest
          readLinesInto bound (parents ++ [key]) (← addTable parents key root) rest
      | '[' :: rest => do
          let ((parents, key), rest) ← readHeader [']'] rest
          readLinesInto bound (parents ++ [key]) (← openTable parents key root) rest
      | '#' :: rest => do readLinesInto bound path root (← afterLine? ('#' :: rest))
      | text =>
          match afterNewline? text with
          | some rest => readLinesInto bound path root rest
          | none => do
              let (((parents, key), node), rest) ← readAssignment (readValue maxNesting) text
              let root ← within (insertDotted key node parents) path root
              readLinesInto bound path root (← afterLine? rest)

/-- Reads a document; a byte order mark at its start is skipped. -/
def read (document : String) : Option Entries :=
  let text := match document.toList with
    | '\ufeff' :: rest => rest
    | text => text
  readLinesInto (text.length + 1) [] [] text

end LineScript.Config
