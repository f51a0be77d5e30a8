import LineScript.Statement.Basic
import LineScript.Token.Basic

/-!
# The balance of blocks

Headers open blocks and terminators close them.  A branch that may follow the innermost open
branch takes its place, so that a statement with several branches needs one terminator.  Blocks
that do not balance are remarked on and change nothing else.
-/

namespace LineScript

/-- What a statement does to the open blocks. -/
inductive BlockEvent where
  /-- It opens the block of a branch, or a named block. -/
  | opens (branch : Option ActionWord)
  | closes
  deriving DecidableEq, Repr

/-- What a statement does to the open blocks, if anything. -/
def Statement.blockEvent? : Statement → Option BlockEvent
  | .line content =>
      if content.action.word.opensBlock then some (.opens content.action.word) else none
  | .block .. => some (.opens none)
  | .blockEnd .. => some .closes
  | .arrow _ => none

/-- The open blocks, the innermost first; `none` is a named block. -/
abbrev OpenBlocks := List (Option ActionWord)

namespace OpenBlocks

/-- Opens a block, in place of the innermost one if it is a branch that this one follows. -/
def opened (branch : Option ActionWord) : OpenBlocks → OpenBlocks
  | some previous :: outer =>
      if branch.any (·.follows previous) then branch :: outer
      else branch :: some previous :: outer
  | blocks => branch :: blocks

/-- The open blocks after a statement. -/
def after (blocks : OpenBlocks) (statement : Statement) : OpenBlocks :=
  match statement.blockEvent? with
  | none => blocks
  | some (.opens branch) => blocks.opened branch
  | some .closes => blocks.tail

end OpenBlocks

/-- The remark on a terminator that closes nothing. -/
def LineToken.strayEndDiagnostic (token : LineToken) : Diagnostic :=
  ⟨"block end '" ++ token.action ++ "' without a matching block opener", token.line, token.span⟩

/-- The remark at the last line on blocks that nothing closes. -/
def LineToken.openBlocksDiagnostic (token : LineToken) (count : Nat) : Diagnostic :=
  ⟨"unclosed block(s): expected " ++ toString count ++ " more '终/end' statement(s)",
    token.line, token.span⟩

/-- The remarks on lines that close nothing, and the blocks that are open after all lines. -/
def strayEnds (blocks : OpenBlocks) :
    List (LineToken × Statement) → List Diagnostic × OpenBlocks
  | [] => ([], blocks)
  | (token, statement) :: rest =>
      let (diagnostics, final) := strayEnds (blocks.after statement) rest
      if statement.blockEvent? == some .closes && blocks.isEmpty then
        (token.strayEndDiagnostic :: diagnostics, final)
      else
        (diagnostics, final)

/-- The remarks on the blocks of a whole program. -/
def blockDiagnostics (lines : List (LineToken × Statement)) : List Diagnostic :=
  let (diagnostics, final) := strayEnds [] lines
  match final, lines.getLast? with
  | _ :: _, some (token, _) => diagnostics ++ [token.openBlocksDiagnostic final.length]
  | _, _ => diagnostics

end LineScript
