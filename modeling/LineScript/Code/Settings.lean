import LineScript.WordMap

/-!
# Settings

What a user may choose about the generated code.
-/

namespace LineScript

/-- Choices about the generated code. -/
structure Settings where
  /-- The text of one level of indentation. -/
  indent : String
  /-- Whether code that is not empty ends with a line feed. -/
  trailingNewline : Bool
  /-- Whether assignments to elements go through a helper function. -/
  runtimeHelpers : Bool
  /-- Names that become calls without arguments when they are the whole of an assigned value. -/
  zeroArgCalls : WordSet
  /-- The names that exceptions have in the generated code; other names stay as they are. -/
  exceptionNames : WordMap String
  deriving DecidableEq

namespace Settings

/-- The settings that hold unless others are chosen. -/
def default : Settings where
  indent := "    "
  trailingNewline := false
  runtimeHelpers := true
  zeroArgCalls := .ofWords ["读数", "读运算符", "input", "float", "int", "str"]
  exceptionNames := .ofList [("零除错误", "ZeroDivisionError"), ("其他错误", "Exception")]

instance : Inhabited Settings := ⟨default⟩

/-- The name of an exception in the generated code. -/
def exceptionName (settings : Settings) (name : String) : String :=
  (settings.exceptionNames.get? name).getD name

/-- Whether a name becomes a call when it is assigned. -/
def isZeroArgCall (settings : Settings) (name : String) : Bool :=
  settings.zeroArgCalls.contains name

/-- Adds a name that becomes a call when it is assigned. -/
def addZeroArgCall (settings : Settings) (name : String) : Settings :=
  { settings with zeroArgCalls := settings.zeroArgCalls.add name }

/-- Chooses the name of an exception in the generated code. -/
def nameException (settings : Settings) (name coded : String) : Settings :=
  { settings with exceptionNames := settings.exceptionNames.insert name coded }

end Settings

end LineScript
