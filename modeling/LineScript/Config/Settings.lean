import LineScript.Code.Settings
import LineScript.Config.Read
import LineScript.Failure

/-!
# Settings from configuration documents

A document changes the settings that it names and leaves the others at their defaults.  A setting
that it names is replaced as a whole, and names of no setting are ignored.
-/

namespace LineScript.Config

/-- The text that a value is. -/
def Node.text? : Node → Option String
  | .text value => some value
  | _ => none

/-- The truth value that a value is. -/
def Node.flag? : Node → Option Bool
  | .flag value => some value
  | _ => none

/-- The set of words that a value lists. -/
def Node.words? : Node → Option WordSet
  | .array items => (items.mapM Node.text?).map .ofWords
  | _ => none

/-- The map between words that a value is.  A moment counts as a map with a single entry. -/
def Node.wordMap? : Node → Option (WordMap String)
  | .table _ entries =>
      (entries.mapM fun (entry : String × Node) => entry.2.text?.map (entry.1, ·)).map .ofList
  | .moment value => some (.ofList [("$__toml_private_datetime", value)])
  | _ => none

/-- The value of a setting, or its default if the document does not name it. -/
def setting {α : Type} (entries : Entries) (key : String) (view : Node → Option α) (default : α) :
    Option α :=
  match entries.lookup key with
  | none => some default
  | some node => view node

end LineScript.Config

namespace LineScript.Settings

open Config in
/-- The settings of a document. -/
def ofDocument? (document : String) : Option Settings := do
  let entries ← read document
  return {
    indent := ← setting entries "indent" Node.text? default.indent
    trailingNewline := ← setting entries "trailing_newline" Node.flag? default.trailingNewline
    runtimeHelpers := ← setting entries "runtime_helpers" Node.flag? default.runtimeHelpers
    zeroArgCalls := ← setting entries "zero_arg_calls" Node.words? default.zeroArgCalls
    exceptionNames := ← setting entries "exception_names" Node.wordMap? default.exceptionNames }

/-- Reads the settings of a document. -/
def parse (document : String) : Except Failure Settings :=
  match ofDocument? document with
  | some settings => .ok settings
  | none => .error .settings

/-- Reads the settings of a file with the given content; there is none if the file cannot be
read. -/
def load (content : Option String) : Except Failure Settings :=
  match content with
  | some document => parse document
  | none => .error .file

end LineScript.Settings
