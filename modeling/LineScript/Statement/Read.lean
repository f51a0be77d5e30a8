import LineScript.Statement.Value
import LineScript.Token.Basic

/-!
# Reading statements

A line token and the names known before it determine a statement.  Nothing else does: blocks,
segments and diagnostics are read off the statements afterwards.
-/

namespace LineScript

/-! ## Arrows and headers -/

/-- Whether a word is the marker of an arrow. -/
def isArrowMarker (word : String) : Bool := (ArrowDirection.ofMarker? word).isSome

/-- Reads the arrow of a line that has a marker among its arguments.  The ends of the arrow are the
words next to the marker. -/
def readArrow? (token : LineToken) : Except LineError (Option Arrow) :=
  match token.args.filterMap ArrowDirection.ofMarker? with
  | [] => .ok none
  | [direction] =>
      let before := token.args.takeWhile fun word => !isArrowMarker word
      let after := (token.args.dropWhile fun word => !isArrowMarker word).tail
      let left := before.getLast?.getD token.action
      match after.head? with
      | none => .error .arrowWithoutTarget
      | some right =>
          match direction with
          | .forward => .ok (some ⟨left, right, direction, token.state⟩)
          | .backward => .ok (some ⟨right, left, direction, token.state⟩)
  | _ => .error .severalArrows

/-- The name in a header: a single word with a colon behind it. -/
def LineToken.headerName? (token : LineToken) : Option String :=
  if token.args.isEmpty then withoutColon? token.action else none

/-- The statement of a line with an action. -/
def LineToken.statement (token : LineToken) (action : Action) : Statement :=
  .line ⟨action, token.state, token.pictograph, token.line, token.span⟩

/-- Reads a header: the branches without arguments, or a named block. -/
def readHeader (token : LineToken) (name : String) : Except LineError Statement :=
  match ActionWord.ofHeader? name with
  | some .elseBranch => .ok (token.statement .elseBranch)
  | some .tryBlock => .ok (token.statement .tryBlock)
  | some _ => .ok (token.statement .finallyBlock)
  | none => if name.isEmpty then .error .headerWithoutName else .ok (.block name token.state)

/-! ## Actions -/

/-- Reads the arguments of an assignment to a name or to an element. -/
def readSet (known : KnownNames) (args : List String) : Except LineError Action :=
  let tokens := exprTokens args
  let plain : Except LineError Action :=
    match tokens with
    | [] => .error .setWithoutArguments
    | [name] => .ok (.set name .none)
    | name :: value => do return .set name (← readAssigned known value)
  match tokens with
  | name :: "[" :: rest =>
      match splitAtClosing "[" "]" 0 rest with
      | some (inside, value) =>
          if tokens.length < 5 || value.isEmpty then plain
          else match readExpr known .value inside with
            | .error cause _ => .error (.expression cause)
            | .ok index [] => do return .indexSet name index (← readAssigned known value)
            | .ok _ _ => .error (.invalidIndex (joinWords inside))
      | none => plain
  | _ => plain

/-- Reads the arguments of a loop over an iterable. -/
def readFor (known : KnownNames) : List String → Except LineError Action
  | var :: inWord :: first :: rest =>
      if isInWord inWord then
        let iterable := stripTrailingColon (first :: rest)
        if iterable.isEmpty then .error .forWithoutIterable
        else do return .forLoop var (← readValueOrName known iterable)
      else .error (.forWithoutIn inWord)
  | _ => .error .incompleteFor

/-- Reads the name and the parameters of a definition. -/
def readDefinition (args : List String) : Except LineError Action :=
  match (args.map withoutColons).filter fun name => !name.isEmpty with
  | [] => .error .defWithoutName
  | name :: params => .ok (.define name params)

/-- Reads the callee and the arguments of a call, each argument from one word. -/
def readCall (known : KnownNames) : List String → Except LineError Action
  | [] => .error .callWithoutName
  | func :: args => do return .call func (← args.mapM fun arg => readValueOrName known [arg])

/-- Reads the arguments of an action. -/
def readAction (known : KnownNames) (word : ActionWord) (args : List String) :
    Except LineError Action :=
  match word with
  | .set => readSet known args
  | .print => do return .print (← readPrinted known args)
  | .ifBranch => do return .ifBranch (← readCondition known args)
  | .elifBranch => do return .elifBranch (← readCondition known args)
  | .whileLoop => do return .whileLoop (← readCondition known args)
  | .forLoop => readFor known args
  | .define => readDefinition args
  | .returnValue =>
      if args.isEmpty then .ok (.returnValue none)
      else do return .returnValue (some (← readValueOrName known args))
  | .call => readCall known args
  | .global => .ok (.global args)
  | .exceptBlock => .ok (.exceptBlock (stripTrailingColon args).head?)
  | .elseBranch => .ok .elseBranch
  | .tryBlock => .ok .tryBlock
  | .finallyBlock => .ok .finallyBlock
  | .breakLoop => .ok .breakLoop
  | .continueLoop => .ok .continueLoop
  | .pass => .ok .pass
  | .arith op => .ok (.arith op args)

/-! ## Lines -/

/-- Reads a line with the names known before it. -/
def readStatement (known : KnownNames) (token : LineToken) : Except LineError Statement :=
  if isBlockEnd token.action then .ok (.blockEnd token.state token.pictograph)
  else do
    match ← readArrow? token with
    | some arrow => return .arrow arrow
    | none =>
        match token.headerName? with
        | some name => readHeader token name
        | none =>
            match ActionWord.ofSpelling? token.action with
            | none => throw (.unknownAction token.action)
            | some word => return token.statement (← readAction known word token.args)

end LineScript
