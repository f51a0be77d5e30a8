import LineScript.Code.Emit
import LineScript.Program.Read

/-!
# Compiling a source
-/

namespace LineScript

/-- The code of a source and the remarks on it. -/
structure Compiled where
  code : String
  diagnostics : List Diagnostic
  deriving Repr

/-- Compiles a source. -/
def compile (settings : Settings) (source : String) : Except Failure Compiled := do
  let parsed ← parse source
  let code ← (parsed.program.generate settings).code
  return ⟨code, parsed.diagnostics⟩

end LineScript
