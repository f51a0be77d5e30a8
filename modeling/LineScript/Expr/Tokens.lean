/-!
# Expression tokens

The words of a line are joined again and cut into finer tokens where an expression is read.  Text
between two double backticks is one token whatever it contains; outside of such runs blanks
separate tokens and each bracket, bar, parenthesis and colon is a token of its own.  A double
backtick that no other one closes is ordinary text.
-/

namespace LineScript.ExprTokens

/-- Characters that are tokens of their own. -/
def isStructural (c : Char) : Bool := "[]|():：".toList.contains c

/-- The blanks that separate tokens. -/
def isSeparator (c : Char) : Bool := c == ' ' || c == '\t'

/-- Cuts a text at its first double backtick. -/
def cutAtQuote : List Char → Option (List Char × List Char)
  | [] => none
  | '\x60' :: '\x60' :: rest => some ([], rest)
  | c :: rest => (cutAtQuote rest).map fun (inside, after) => (c :: inside, after)

/-- What follows the first double backtick is shorter than the text. -/
theorem length_lt_of_cutAtQuote {text inside after : List Char}
    (hcut : cutAtQuote text = some (inside, after)) : after.length < text.length := by
  fun_induction cutAtQuote text generalizing inside with
  | case1 => simp at hcut
  | case2 rest =>
      cases hcut
      simp only [List.length_cons]
      omega
  | case3 c rest _ ih =>
      obtain ⟨⟨inner, tail⟩, hinner, heq⟩ := Option.map_eq_some_iff.mp hcut
      cases heq
      have := ih hinner
      simp only [List.length_cons]
      omega

/-- A stretch of text: either between double backticks or outside of them. -/
inductive Stretch where
  | quoted (text : List Char)
  | plain (text : List Char)
  deriving DecidableEq, Repr

/-- Puts a character in front of stretches. -/
def Stretch.push (c : Char) : List Stretch → List Stretch
  | .plain text :: rest => .plain (c :: text) :: rest
  | stretches => .plain [c] :: stretches

/-- The stretches of a text, from left to right. -/
def stretches (text : List Char) : List Stretch :=
  match text with
  | [] => []
  | '\x60' :: '\x60' :: rest =>
      match h : cutAtQuote rest with
      | some (inside, after) =>
          have := length_lt_of_cutAtQuote h
          .quoted inside :: stretches after
      | none => Stretch.push '\x60' (stretches ('\x60' :: rest))
  | c :: rest => Stretch.push c (stretches rest)
termination_by text.length
decreasing_by all_goals (simp only [List.length_cons]; omega)

/-- Cuts a word in front of each structural character and behind it. -/
def splitStructural (word : List Char) : List (List Char) :=
  word.splitBy fun left right => !isStructural left && !isStructural right

/-- The tokens of a stretch. -/
def Stretch.tokens : Stretch → List (List Char)
  | .quoted text => ["\x60\x60".toList ++ text ++ "\x60\x60".toList]
  | .plain text => (text.splitOnP isSeparator).flatMap splitStructural

/-- The tokens of a text. -/
def ofText (text : List Char) : List (List Char) := (stretches text).flatMap Stretch.tokens

end LineScript.ExprTokens

namespace LineScript

/-- Words joined by single spaces. -/
def joinWords (words : List String) : String := " ".intercalate words

/-- The expression tokens of the words of a line. -/
def exprTokens (words : List String) : List String :=
  (ExprTokens.ofText (joinWords words).toList).map String.ofList

end LineScript
