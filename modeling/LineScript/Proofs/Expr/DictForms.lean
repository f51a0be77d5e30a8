import LineScript.Proofs.Expr.RoundTrip

/-!
# Two ways to write a dictionary

The entries of a dictionary stand in brackets, with a map word in front of them or without one.  The
reader does not go the same way for both.  Behind a map word it reads entries from the start.
Behind a bracket of its own it reads an expression first and looks for a colon behind it; if there
is one, it goes back and reads the same tokens as entries.

Main statement: for brackets that are not empty both ways lead to the same dictionaries and leave
the same tokens (`takes_bracket_iff_takes_map`).  As long as the first expression in the brackets
does not show that they are a list, they lead to the same errors as well.

The first expression decides.  If it is faulty, both readers stop at its fault.  If a colon comes
behind it, both read entries from the same token.  Otherwise brackets of their own are a list, and
behind a map word the colon is missing.
-/

namespace LineScript

open Reading

/-- The reader reads a value from the first tokens of a list, as many as `count`, and stops there.
-/
def Reader.Takes {α : Type} (reader : Reader α) (tokens : List String) (count : Nat) (value : α) :
    Prop :=
  count ≤ tokens.length ∧ reader tokens = .ok value (tokens.drop count)

/-- Nothing shows that the inside of brackets is a list: reading its first expression fails, or a
colon comes behind it. -/
def MayBeEntries (inner : InnerReader) (tokens : List String) : Prop :=
  ∀ first after, inner .value tokens = .ok first after → after.head?.any isColon = true

/-! ## The first entry -/

section Inside

variable {inner : InnerReader} {tokens after : List String} {first : Expr} {cause : ExprError}

/-- A fault in the first key is a fault of the entries. -/
theorem readEntries_of_error (hfirst : inner .value tokens = .error cause after) :
    readEntries inner tokens = .error cause after := by
  have hentry : readEntry inner tokens = .error cause after := by
    rw [readEntry, hfirst, andThen_error]
  rw [readEntries, readItems, hentry, andThen_error]
  rfl

theorem readEntries_of_no_colon (hfirst : inner .value tokens = .ok first after)
    (hcolon : after.head?.any isColon = false) :
    readEntries inner tokens = .error .missingColon after := by
  have hentry : readEntry inner tokens = .error .missingColon after := by
    rw [readEntry, hfirst, andThen_ok]
    cases after with
    | nil => rfl
    | cons token behind =>
        have htoken : isColon token = false := hcolon
        simp only [htoken, Bool.false_eq_true, if_false]
  rw [readEntries, readItems, hentry, andThen_error]
  rfl

/-! ## Both readers on the same inside -/

/-- Where the first expression does not tell brackets from entries, they are read as entries. -/
theorem readBracketed_eq_readDict (hhead : tokens.head? ≠ some "]")
    (hentries : MayBeEntries inner tokens) :
    readBracketed inner tokens = readDict inner tokens := by
  rw [readDict_eq_readEntries hhead]
  cases hfirst : inner .value tokens with
  | error cause after => rw [readBracketed_of_error hhead hfirst, readEntries_of_error hfirst]
  | ok first after => exact readBracketed_eq_dict hhead hfirst (hentries first after hfirst)

/-- Where it does, behind a bracket of its own there is no dictionary, -/
theorem readBracketed_ne_dict (hhead : tokens.head? ≠ some "]")
    (hfirst : inner .value tokens = .ok first after) (hcolon : after.head?.any isColon = false)
    (entries : List (Expr × Expr)) (rest : List String) :
    readBracketed inner tokens ≠ .ok (.dict entries) rest := by
  intro hread
  rw [readBracketed_eq_list hhead hfirst hcolon] at hread
  obtain ⟨elements, -, hlist⟩ := Reading.map_eq_ok_iff.mp hread
  cases hlist

/-- and neither is there one behind a map word. -/
theorem readDict_of_no_colon (hhead : tokens.head? ≠ some "]")
    (hfirst : inner .value tokens = .ok first after) (hcolon : after.head?.any isColon = false) :
    readDict inner tokens = .error .missingColon after := by
  rw [readDict_eq_readEntries hhead, readEntries_of_no_colon hfirst hcolon]

theorem readBracketed_eq_dict_iff (hhead : tokens.head? ≠ some "]")
    (entries : List (Expr × Expr)) (rest : List String) :
    readBracketed inner tokens = .ok (.dict entries) rest ↔
      readDict inner tokens = .ok (.dict entries) rest := by
  by_cases hentries : MayBeEntries inner tokens
  · rw [readBracketed_eq_readDict hhead hentries]
  · simp only [MayBeEntries, not_forall, Bool.not_eq_true] at hentries
    obtain ⟨first, after, hfirst, hcolon⟩ := hentries
    apply iff_of_false
    · exact readBracketed_ne_dict hhead hfirst hcolon entries rest
    · rw [readDict_of_no_colon hhead hfirst hcolon]
      exact nofun

end Inside

/-! ## Both forms -/

/-- **A map word changes no dictionary.**  Brackets that are not empty are read as a dictionary
exactly if they are read as the same dictionary behind a map word, with one token more.  If reading
the first expression in them fails, or a colon comes behind it, all else is the same too: the error,
and the tokens that are left. -/
theorem takes_bracket_iff_takes_map (known : KnownNames) (context : Context) {word : String}
    (hword : isMapWord word = true) {rest : List String} (hrest : rest.head? ≠ some "]") :
    let primary := readPrimary (readExpr known) known context
    (∀ entries count, primary.Takes ("[" :: rest) count (.dict entries) ↔
      primary.Takes (word :: "[" :: rest) (count + 1) (.dict entries)) ∧
    ((∃ cause left, readExpr known .value rest = .error cause left) ∨
        (∃ first colon left, readExpr known .value rest = .ok first (colon :: left) ∧
          isColon colon = true) →
      primary ("[" :: rest) = primary (word :: "[" :: rest)) := by
  intro primary
  have hbracket : primary ("[" :: rest) = readBracketed (readExpr known) rest :=
    readPrimary_bracket context rest
  have hmap : primary (word :: "[" :: rest) = readDict (readExpr known) rest :=
    readPrimary_map hword context rest
  constructor
  · intro entries count
    -- the map word is one token more
    apply and_congr
    · exact Nat.succ_le_succ_iff.symm
    · rw [hbracket, hmap]
      exact readBracketed_eq_dict_iff hrest entries _
  · intro hfirst
    rw [hbracket, hmap]
    apply readBracketed_eq_readDict hrest
    intro first after hread
    -- a fault or a colon: either way the first expression is no element of a list
    rcases hfirst with ⟨cause, left, herror⟩ | ⟨other, colon, left, hother, hcolon⟩
    · rw [herror] at hread
      cases hread
    · rw [hother] at hread
      cases hread
      exact hcolon

/-- A dictionary without a map word, in one with a map word, in one without, and a token behind
them; and one in which the second colon is missing. -/
theorem takes_bracket_iff_takes_map_of_nested :
    let primary := readPrimary (readExpr .empty) .empty .value
    let rest := ["a", ":", "map", "[", "1", ":", "[", "b", "：", "none", "]", "]", "]", "|"]
    let inner := Expr.dict [(.number "1", .dict [(.bare "b", .none)])]
    let faulty := ["a", ":", "1", "|", "b", "]"]
    primary.Takes ("映" :: "[" :: rest) 15 (.dict [(.bare "a", inner)]) ∧
      primary.Takes ("[" :: rest) 14 (.dict [(.bare "a", inner)]) ∧
      primary ("[" :: faulty) = primary ("map" :: "[" :: faulty) ∧
      primary ("map" :: "[" :: faulty) = .error .missingColon ["]"] := by
  intro primary rest inner faulty
  have hmap : primary.Takes ("映" :: "[" :: rest) 15 (.dict [(.bare "a", inner)]) :=
    ⟨by decide, by rfl⟩
  have hrest : rest.head? ≠ some "]" := by decide
  have hfaulty : faulty.head? ≠ some "]" := by decide
  have hword : isMapWord "映" = true ∧ isMapWord "map" = true := by decide
  refine ⟨hmap, ?_, ?_, by rfl⟩
  · have hforms := takes_bracket_iff_takes_map .empty .value hword.1 hrest
    exact (hforms.1 _ 14).mpr hmap
  · have hforms := takes_bracket_iff_takes_map .empty .value hword.2 hfaulty
    apply hforms.2
    exact .inr ⟨.bare "a", ":", ["1", "|", "b", "]"], by rfl, by decide⟩

end LineScript
