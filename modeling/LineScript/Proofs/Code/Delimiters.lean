import LineScript.Proofs.Code.Literal
import LineScript.Proofs.Code.SingleLine
import Mathlib.Algebra.Group.Nat.Even

/-!
# Literals end at their last quote

A quote inside of a literal does not end it if a backslash escapes it, which is the case if it comes
behind an odd number of them.  Backslashes of the text are written twice, so that a quote of the
text is always behind an odd number and the last quote of the literal behind an even one, whatever
the text ends with.

Main statement: texts between double quotes, and texts without line breaks between single quotes,
are literals on one line that end at their last quote and mean the text (`isLiteral_of_text`).

## Strategy

Both ways to quote a text write it character by character, and each character becomes a piece: the
character itself, or a backslash and one more character (`Piece`).  Only this shape is used, so that
one proof covers both.  A piece has an even number of backslashes at its end, hence leaves the count
behind it as even or odd as it was, and a quote inside of a piece is behind the one backslash of it.
`even_backslashesAtEnd_iff` goes through the pieces with these two facts; that the literal means the
text is another matter, and comes from `Literal.lean`.
-/

namespace LineScript

namespace Code

/-! ## Backslashes in front of a place -/

/-- How many backslashes a text ends with. -/
def backslashesAtEnd (text : List Char) : Nat := (text.reverse.takeWhile (· == '\\')).length

theorem backslashesAtEnd_append (front back : List Char) :
    backslashesAtEnd (front ++ back) =
      if backslashesAtEnd back = back.length then back.length + backslashesAtEnd front
      else backslashesAtEnd back := by
  unfold backslashesAtEnd
  rw [List.reverse_append, List.takeWhile_append, List.length_reverse]
  split
  · rw [List.length_append, List.length_reverse]
  · rfl

/-- An even number of backslashes in front escapes nothing. -/
theorem even_backslashesAtEnd_append {front : List Char} (heven : Even (backslashesAtEnd front))
    (back : List Char) :
    Even (backslashesAtEnd (front ++ back)) ↔ Even (backslashesAtEnd back) := by
  rw [backslashesAtEnd_append]
  split
  next hall => rw [hall, Nat.even_add, iff_true_right heven]
  next => rfl

/-! ## The pieces of a literal -/

/-- What a character is written as between quotes: itself if it has no meaning there, or else a
backslash and one character. -/
inductive Piece (quote : Char) : List Char → Prop
  | plain {c : Char} (hbackslash : c ≠ '\\') (hquote : c ≠ quote) : Piece quote [c]
  | escape (c : Char) : Piece quote ['\\', c]

variable {quote : Char} {piece : List Char}

theorem Piece.even_backslashesAtEnd (hpiece : Piece quote piece) :
    Even (backslashesAtEnd piece) := by
  cases hpiece with
  | plain hbackslash _ => simp [backslashesAtEnd, hbackslash]
  | escape c =>
      by_cases hc : c = '\\'
      · rw [hc]
        decide
      · simp [backslashesAtEnd, hc]

/-- Inside of a piece, a quote is behind one backslash. -/
theorem Piece.not_even_of_quote {front back : List Char} (hpiece : Piece quote piece)
    (hquote : quote ≠ '\\') (heq : piece = front ++ quote :: back) :
    ¬ Even (backslashesAtEnd front) := by
  cases hpiece with
  -- a plain character is no quote
  | plain _ hother =>
      obtain ⟨rfl, hc⟩ | ⟨_, hnil⟩ := List.singleton_eq_append_iff.mp heq
      · exact absurd (List.cons.inj hc).1.symm hother
      · cases hnil
  | escape c =>
      cases front with
      | nil => exact absurd (List.cons.inj heq).1.symm hquote
      | cons first more =>
          obtain ⟨rfl, hmore⟩ := List.cons.inj heq
          -- the quote is the escaped character, behind the one backslash of the piece
          obtain ⟨rfl, -⟩ | ⟨_, hnil⟩ := List.singleton_eq_append_iff.mp hmore
          · decide
          · cases hnil

theorem piece_escapeDouble (c : Char) : Piece '"' (escapeDouble c) := by
  unfold escapeDouble
  split
  case h_6 hbackslash hquote _ _ _ => exact .plain hbackslash hquote
  all_goals exact .escape _

theorem piece_escapeSingle (c : Char) : Piece '\x27' (escapeSingle c) := by
  unfold escapeSingle
  simp only [beq_iff_eq]
  split
  · exact .escape _
  next hbackslash =>
    split
    · exact .escape _
    next hquote => exact .plain hbackslash hquote

/-- Behind pieces, the first quote that nothing escapes is the one behind all of them. -/
theorem even_backslashesAtEnd_iff {escape : Char → List Char} {chars front back : List Char}
    (hquote : quote ≠ '\\') (hpieces : ∀ c, Piece quote (escape c))
    (heq : chars.flatMap escape ++ [quote] = front ++ quote :: back) :
    Even (backslashesAtEnd front) ↔ back = [] := by
  induction chars generalizing front with
  | nil =>
      obtain ⟨rfl, hback⟩ | ⟨_, hnil⟩ := List.singleton_eq_append_iff.mp heq
      · -- no piece is left: the quote is the last one
        exact iff_of_true (by decide) (List.cons.inj hback).2
      · cases hnil
  | cons c rest ih =>
      rw [List.flatMap_cons, List.append_assoc] at heq
      -- the quote is behind the first piece, or inside of it
      have hbehind (more : List Char) (hfront : front = escape c ++ more)
          (hmore : rest.flatMap escape ++ [quote] = more ++ quote :: back) :
          Even (backslashesAtEnd front) ↔ back = [] := by
        rw [hfront, even_backslashesAtEnd_append (hpieces c).even_backslashesAtEnd, ih hmore]
      rcases List.append_eq_append_iff.mp heq with ⟨more, hfront, hmore⟩ | ⟨more, hpiece, hmore⟩
      · exact hbehind more hfront hmore
      · cases more with
        | nil => exact hbehind [] (by simpa using hpiece.symm) hmore.symm
        | cons d others =>
            obtain ⟨rfl, hback⟩ := List.cons.inj hmore
            -- inside of a piece the quote is escaped, and more of the literal is behind it
            exact iff_of_false ((hpieces c).not_even_of_quote hquote hpiece) (by simp [hback])

/-! ## Whole literals -/

/-- A literal of the generated code, on one line between two quotes, that means a text.  The only
quote behind the first one that no backslash escapes is the last one. -/
structure IsLiteral (named : String → Option Char) (quote : Char) (literal text : String) :
    Prop where
  singleLine : SingleLine literal
  delimited : ∃ inside, literal.toList = quote :: (inside ++ [quote])
  unescaped_iff : ∀ front back, literal.toList = quote :: (front ++ quote :: back) →
    (Even (backslashesAtEnd front) ↔ back = [])
  decoded : Literal.decode? named literal = some text

theorem isLiteral_doubleQuoted (named : String → Option Char) (text : String) :
    IsLiteral named '"' (doubleQuoted text) text where
  singleLine := singleLine_doubleQuoted text
  delimited := ⟨text.toList.flatMap escapeDouble, String.toList_ofList⟩
  unescaped_iff := by
    intro front back heq
    rw [doubleQuoted, String.toList_ofList] at heq
    exact even_backslashesAtEnd_iff (by decide) piece_escapeDouble (List.cons.inj heq).2
  decoded := Literal.decode?_doubleQuoted named text

theorem isLiteral_singleQuoted (named : String → Option Char) {text : String}
    (htext : SingleLine text) : IsLiteral named '\x27' (singleQuoted text) text where
  singleLine := singleLine_singleQuoted htext
  delimited := ⟨text.toList.flatMap escapeSingle, String.toList_ofList⟩
  unescaped_iff := by
    intro front back heq
    rw [singleQuoted, String.toList_ofList] at heq
    exact even_backslashesAtEnd_iff (by decide) piece_escapeSingle (List.cons.inj heq).2
  decoded := Literal.decode?_singleQuoted named fun c hc => not_or.mpr (htext c hc)

/-- Writing a text as a literal brings in no null character. -/
theorem null_not_mem_quoted {escape : Char → List Char} {text : String}
    (hquote : quote ≠ '\x00') (hescape : ∀ c, '\x00' ∈ escape c → c = '\x00')
    (htext : '\x00' ∉ text.toList) :
    '\x00' ∉ (String.ofList (quote :: text.toList.flatMap escape ++ [quote])).toList := by
  rw [String.toList_ofList]
  simp only [List.cons_append, List.mem_cons, List.mem_append, List.mem_flatMap,
    List.not_mem_nil, or_false, not_or]
  refine ⟨hquote.symm, ?_, hquote.symm⟩
  rintro ⟨c, hc, hmem⟩
  exact htext (hescape c hmem ▸ hc)

theorem null_not_mem_doubleQuoted {text : String} (htext : '\x00' ∉ text.toList) :
    '\x00' ∉ (doubleQuoted text).toList := by
  refine null_not_mem_quoted (by decide) (fun c hmem => ?_) htext
  unfold escapeDouble at hmem
  split at hmem
  case h_6 => exact (List.mem_singleton.mp hmem).symm
  all_goals simp at hmem

theorem null_not_mem_singleQuoted {text : String} (htext : '\x00' ∉ text.toList) :
    '\x00' ∉ (singleQuoted text).toList := by
  refine null_not_mem_quoted (by decide) (fun c hmem => ?_) htext
  unfold escapeSingle at hmem
  split at hmem
  · simp at hmem
  · split at hmem
    · simp at hmem
    · exact (List.mem_singleton.mp hmem).symm

/-- **Literals end at their last quote.**  The code of a text is a literal in double quotes, and the
name of a container without line breaks is one in single quotes: each is on one line, means what it
is written for, and no quote in it ends it early.  Null characters, which code may not contain, are
in it only if they are in the text. -/
theorem isLiteral_of_text (named : String → Option Char) (text : String) :
    ('\x00' ∉ text.toList → ∀ quoted,
      IsLiteral named '"' (Expr.str text quoted).code text ∧
        '\x00' ∉ (Expr.str text quoted).code.toList) ∧
    (SingleLine text →
      IsLiteral named '\x27' (singleQuoted text) text ∧
        ('\x00' ∉ text.toList → '\x00' ∉ (singleQuoted text).toList)) := by
  constructor
  · intro hnull quoted
    rw [Expr.code]
    exact ⟨isLiteral_doubleQuoted named text, null_not_mem_doubleQuoted hnull⟩
  · intro hline
    exact ⟨isLiteral_singleQuoted named hline, null_not_mem_singleQuoted⟩

/-- A text with quotes of both kinds, a backslash in front of one of them and one at its end. -/
theorem isLiteral_of_backslashes :
    let text := "it\x27s \\\"n\\"
    '\x00' ∉ text.toList ∧ SingleLine text ∧
      IsLiteral (fun _ => none) '"' "\"it\x27s \\\\\\\"n\\\\\"" text ∧
      IsLiteral (fun _ => none) '\x27' "\x27it\\\x27s \\\\\"n\\\\\x27" text := by
  intro text
  have hnull : '\x00' ∉ text.toList := by decide
  have hline : SingleLine text := by decide
  have hliterals := isLiteral_of_text (fun _ => none) text
  have hcode : (Expr.str text true).code = "\"it\x27s \\\\\\\"n\\\\\"" := by decide +kernel
  have hsingle : singleQuoted text = "\x27it\\\x27s \\\\\"n\\\\\x27" := by decide +kernel
  refine ⟨hnull, hline, ?_, ?_⟩
  · rw [← hcode]
    exact (hliterals.1 hnull true).1
  · rw [← hsingle]
    exact (hliterals.2 hline).1

end Code

end LineScript
