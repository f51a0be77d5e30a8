/-!
# The vocabulary

Every word of the language has spellings in several scripts, which all mean the same.  This file
lists them: the action words that lines begin with, the words inside expressions, and the state
glyphs.  The lists are the whole of the language's localisation, and no other file spells a word.
-/

namespace LineScript

/-! ## Operators -/

/-- Operators between two values. -/
inductive BinaryOp where
  | or | and | eq | ne | lt | le | gt | ge | add | sub | mul | div
  deriving DecidableEq, Repr, Inhabited

/-- Operators in front of a value. -/
inductive UnaryOp where
  | not | neg | plus
  deriving DecidableEq, Repr, Inhabited

/-- The four operations of arithmetic. -/
inductive ArithOp where
  | add | sub | mul | div
  deriving DecidableEq, Repr, Inhabited

namespace BinaryOp

/-- The canonical text of an operator. -/
def symbol : BinaryOp → String
  | .or => "or" | .and => "and"
  | .eq => "==" | .ne => "!=" | .lt => "<" | .le => "<=" | .gt => ">" | .ge => ">="
  | .add => "+" | .sub => "-" | .mul => "*" | .div => "/"

/-- The comparison with a canonical text. -/
def ofComparisonSymbol? : String → Option BinaryOp
  | "==" => some .eq | "!=" => some .ne
  | "<" => some .lt | "<=" => some .le | ">" => some .gt | ">=" => some .ge
  | _ => none

/-- The comparison that a word spells. -/
def ofComparisonWord? : String → Option BinaryOp
  | "是" => some .eq
  | "不是" => some .ne
  | word => ofComparisonSymbol? word

/-- The operator that a word spells between the terms of a sum. -/
def ofSumWord? : String → Option BinaryOp
  | "+" => some .add | "-" => some .sub | _ => none

/-- The operator that a word spells between the factors of a product. -/
def ofProductWord? : String → Option BinaryOp
  | "*" => some .mul | "/" => some .div | _ => none

end BinaryOp

namespace UnaryOp

/-- The canonical text of an operator. -/
def symbol : UnaryOp → String
  | .not => "not" | .neg => "-" | .plus => "+"

/-- The operator that a sign spells. -/
def ofSign? : String → Option UnaryOp
  | "-" => some .neg | "+" => some .plus | _ => none

end UnaryOp

namespace ArithOp

/-- The sign of an operation. -/
def symbol : ArithOp → String
  | .add => "+" | .sub => "-" | .mul => "*" | .div => "/"

/-- The operator that an operation is in an expression. -/
def toBinaryOp : ArithOp → BinaryOp
  | .add => .add | .sub => .sub | .mul => .mul | .div => .div

theorem symbol_toBinaryOp (op : ArithOp) : op.toBinaryOp.symbol = op.symbol := by
  cases op <;> rfl

end ArithOp

/-! ## Action words -/

/-- What a line does. -/
inductive ActionWord where
  | print | set | call | define | returnValue
  | ifBranch | elifBranch | elseBranch | whileLoop | forLoop | breakLoop | continueLoop
  | tryBlock | exceptBlock | finallyBlock | pass | global
  | arith (op : ArithOp)
  deriving DecidableEq, Repr, Inhabited

namespace ActionWord

/-- Every action word, in the order of the language's reference. -/
def all : List ActionWord :=
  [.print, .set, .call, .define, .returnValue, .ifBranch, .elifBranch, .elseBranch, .whileLoop,
    .forLoop, .breakLoop, .continueLoop, .tryBlock, .exceptBlock, .finallyBlock, .pass, .global,
    .arith .add, .arith .sub, .arith .mul, .arith .div]

/-- The action that a word spells. -/
def ofSpelling? : String → Option ActionWord
  | "print" | "印" => some .print
  | "set" | "置" => some .set
  | "call" | "调" => some .call
  | "def" | "定" => some .define
  | "return" | "回" => some .returnValue
  | "if" | "若" => some .ifBranch
  | "elif" | "又若" => some .elifBranch
  | "else" | "否则" => some .elseBranch
  | "while" | "当" => some .whileLoop
  | "for" | "扭扭" | "回す" => some .forLoop
  | "break" | "断" => some .breakLoop
  | "continue" | "续" => some .continueLoop
  | "try" | "试" => some .tryBlock
  | "except" | "捕" => some .exceptBlock
  | "finally" | "终于" => some .finallyBlock
  | "pass" | "空" => some .pass
  | "global" | "全局" | "全" => some .global
  | "add" | "加" => some (.arith .add)
  | "sub" | "减" => some (.arith .sub)
  | "mul" | "乘" => some (.arith .mul)
  | "div" | "除" => some (.arith .div)
  | _ => none

/-- The name of an action in messages. -/
def display : ActionWord → String
  | .print => "PRINT" | .set => "SET" | .call => "CALL" | .define => "DEF"
  | .returnValue => "RETURN" | .ifBranch => "IF" | .elifBranch => "ELIF" | .elseBranch => "ELSE"
  | .whileLoop => "WHILE" | .forLoop => "FOR" | .breakLoop => "BREAK"
  | .continueLoop => "CONTINUE" | .tryBlock => "TRY" | .exceptBlock => "EXCEPT"
  | .finallyBlock => "FINALLY" | .pass => "PASS" | .global => "GLOBAL"
  | .arith .add => "ADD" | .arith .sub => "SUB" | .arith .mul => "MUL" | .arith .div => "DIV"

/-- Actions whose line is the header of a body. -/
def opensBlock : ActionWord → Bool
  | .define | .ifBranch | .elifBranch | .elseBranch | .whileLoop | .forLoop
  | .tryBlock | .exceptBlock | .finallyBlock => true
  | _ => false

/-- Headers that go on with the statement of an earlier branch. -/
def continuesBlock : ActionWord → Bool
  | .elifBranch | .elseBranch | .exceptBlock | .finallyBlock => true
  | _ => false

/-- Whether a branch may come directly after a branch of the same statement. -/
def follows : ActionWord → ActionWord → Bool
  | .elifBranch, .ifBranch | .elifBranch, .elifBranch => true
  | .elseBranch, .ifBranch | .elseBranch, .elifBranch => true
  | .exceptBlock, .tryBlock | .exceptBlock, .exceptBlock => true
  | .finallyBlock, .tryBlock | .finallyBlock, .exceptBlock => true
  | _, _ => false

/-- The branch that a bare header names: `else`, `try` and `finally` need no arguments. -/
def ofHeader? (name : String) : Option ActionWord :=
  match ofSpelling? name with
  | some .elseBranch => some .elseBranch
  | some .tryBlock => some .tryBlock
  | some .finallyBlock => some .finallyBlock
  | _ => none

theorem opensBlock_of_continuesBlock {word : ActionWord} (hcontinues : word.continuesBlock = true) :
    word.opensBlock = true := by
  cases word <;> simp_all [continuesBlock, opensBlock]

theorem continuesBlock_of_follows {word previous : ActionWord}
    (hfollows : word.follows previous = true) : word.continuesBlock = true := by
  cases word <;> cases previous <;> simp_all [continuesBlock, follows]

end ActionWord

/-! ## Other words -/

/-- Words that close a block. -/
def isBlockEnd (word : String) : Bool := ["end", "结束", "完了", "终", "終"].contains word

/-- Words between the variable and the iterable of a loop. -/
def isInWord (word : String) : Bool := ["in", "在", "中"].contains word

/-- Words for truth. -/
def isTrueWord (word : String) : Bool := ["true", "真"].contains word

/-- Words for falsehood. -/
def isFalseWord (word : String) : Bool := ["false", "假", "偽"].contains word

/-- Words for the absent value. -/
def isNoneWord (word : String) : Bool := ["none", "无", "無"].contains word

/-- Words that make the bracket after them a dictionary. -/
def isMapWord (word : String) : Bool := ["map", "映", "辞"].contains word

/-- Words for disjunction. -/
def isOrWord (word : String) : Bool := ["or", "或"].contains word

/-- Words for conjunction. -/
def isAndWord (word : String) : Bool := ["and", "且"].contains word

/-- Words for negation. -/
def isNotWord (word : String) : Bool := ["not", "非"].contains word

/-- Colons, of either width. -/
def isColon (word : String) : Bool := [":", "："].contains word

/-! ## State glyphs -/

/-- How a line takes part in the flow of a program. -/
inductive LineState where
  /-- The line goes on with the current segment. -/
  | continued
  /-- The line closes the current segment. -/
  | advance
  /-- The line echoes back to the previous segment. -/
  | echo
  /-- The line must succeed. -/
  | strong
  /-- The line awaits its input. -/
  | tentative
  deriving DecidableEq, Repr, Inhabited

namespace LineState

/-- The state that a glyph spells. -/
def ofGlyph? : String → Option LineState
  | "~" => some .continued
  | ">" => some .advance
  | "<" => some .echo
  | "!" => some .strong
  | "?" => some .tentative
  | _ => none

/-- The glyph of a state. -/
def glyph : LineState → String
  | .continued => "~" | .advance => ">" | .echo => "<" | .strong => "!" | .tentative => "?"

/-- Whether a line in this state closes the segment that it belongs to. -/
def endsSegment : LineState → Bool
  | .advance => true
  | _ => false

@[simp] theorem ofGlyph?_glyph (state : LineState) : ofGlyph? state.glyph = some state := by
  cases state <;> rfl

end LineState

/-! ## Arrows -/

/-- Which way an arrow points. -/
inductive ArrowDirection where
  | forward | backward
  deriving DecidableEq, Repr, Inhabited

/-- The direction that an arrow's marker shows. -/
def ArrowDirection.ofMarker? : String → Option ArrowDirection
  | "->" => some .forward
  | "<-" => some .backward
  | _ => none

end LineScript
