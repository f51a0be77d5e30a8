/-!
# Text literals

How a text is written as a literal of the generated code.  Texts of programs stand in double
quotes with all line breaks and tabs escaped.  Names of containers stand in single quotes; they
are single words and hold no line breaks.
-/

namespace LineScript.Code

/-- A character between double quotes. -/
def escapeDouble (c : Char) : List Char :=
  match c with
  | '\\' => ['\\', '\\']
  | '"' => ['\\', '"']
  | '\n' => ['\\', 'n']
  | '\r' => ['\\', 'r']
  | '\t' => ['\\', 't']
  | c => [c]

/-- A character between single quotes. -/
def escapeSingle (c : Char) : List Char :=
  if c == '\\' then ['\\', '\\'] else if c == '\x27' then ['\\', '\x27'] else [c]

/-- A text in double quotes. -/
def doubleQuoted (text : String) : String :=
  String.ofList ('"' :: text.toList.flatMap escapeDouble ++ ['"'])

/-- A text in single quotes. -/
def singleQuoted (text : String) : String :=
  String.ofList ('\x27' :: text.toList.flatMap escapeSingle ++ ['\x27'])

end LineScript.Code
