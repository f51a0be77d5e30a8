import LineScript.Expr.Word
import LineScript.Proofs.Text.Written

/-!
# Characters of names

Names consist of letters, numbers and underscores.  The tables of these characters share nothing
with one table of white space and signs (`Text.outsideNames`), so that a name contains none of the
signs of the language, and a name on a line is cut out of it again (`Writable.of_isIdentifier`).

The tables have hundreds of ranges, and nothing is decided by going through them twice.  Two tables
are disjoint if no range of one meets a range of the other, which is checked once for the tables as
they are (`CharTable.contains_eq_false_of_disjoint`), and every sign and kind of white space that
matters later is in the one table that names stay out of.
-/

namespace LineScript

namespace Text

/-- No interval of one table meets an interval of the other. -/
def CharTable.disjoint (table table' : CharTable) : Bool :=
  table.all fun interval => table'.all fun interval' =>
    interval.2.blt interval'.1 || interval'.2.blt interval.1

/-- Disjoint tables have no character in common. -/
theorem CharTable.contains_eq_false_of_disjoint {table table' : CharTable}
    (hdisjoint : table.disjoint table' = true) {c : Char} (hcontains : table.contains c = true) :
    table'.contains c = false := by
  by_contra hboth
  obtain ⟨interval, hmem, hle, hge⟩ := CharTable.contains_iff.mp hcontains
  obtain ⟨interval', hmem', hle', hge'⟩ :=
    CharTable.contains_iff.mp (Bool.not_eq_false _ ▸ hboth)
  -- a common character would be between the ends of two intervals
  have happart := List.all_eq_true.mp (List.all_eq_true.mp hdisjoint interval hmem) interval' hmem'
  simp only [Bool.or_eq_true, Nat.blt_eq] at happart
  omega

/-- White space, the signs of ASCII without the underscore, and the full-width colon. -/
def outsideNames : CharTable :=
  blanks ++
    [(0x21, 0x2F), (0x3A, 0x40), (0x5B, 0x5E), (0x60, 0x60), (0x7B, 0x7E), (0xFF1A, 0xFF1A)]

theorem outsideNames_of_isBlank {c : Char} (hblank : isBlank c = true) :
    outsideNames.contains c = true := by
  rw [outsideNames, CharTable.contains, List.any_append, ← CharTable.contains, ← isBlank, hblank,
    Bool.true_or]

theorem isLetterOrNumber_of_outsideNames {c : Char} (hc : outsideNames.contains c = true) :
    isLetterOrNumber c = false := by
  have hbasic : outsideNames.disjoint lettersOfBasicPlane = true := by
    decide +kernel
  have hother : outsideNames.disjoint lettersOfOtherPlanes = true := by
    decide +kernel
  have hnumbers : outsideNames.disjoint numbers = true := by
    decide +kernel
  rw [isLetterOrNumber, isLetter, CharTable.contains_eq_false_of_disjoint hbasic hc,
    CharTable.contains_eq_false_of_disjoint hother hc,
    CharTable.contains_eq_false_of_disjoint hnumbers hc]
  rfl

end Text

/-- Letters, numbers and underscores. -/
def isNameCharacter (c : Char) : Bool := Text.isLetterOrNumber c || c == '_'

variable {name : String}

theorem isNameCharacter_of_isIdentifier (hidentifier : isIdentifier name = true) :
    ∀ c ∈ name.toList, isNameCharacter c = true := by
  unfold isIdentifier at hidentifier
  split at hidentifier
  · cases hidentifier
  next first rest hname =>
    rw [Bool.and_eq_true, Bool.or_eq_true] at hidentifier
    obtain ⟨hfirst, hrest⟩ := hidentifier
    rw [hname]
    refine List.forall_mem_cons.mpr ⟨?_, List.all_eq_true.mp hrest⟩
    -- numbers may come later only, but are characters of names as well
    rcases hfirst with hletter | hunderscore
    · simp [isNameCharacter, Text.isLetterOrNumber, hletter]
    · simp [isNameCharacter, hunderscore]

theorem ne_empty_of_isIdentifier (hidentifier : isIdentifier name = true) : name ≠ "" := by
  rintro rfl
  cases hidentifier

/-- Names contain neither white space nor signs. -/
theorem not_isNameCharacter {c : Char} (houtside : Text.outsideNames.contains c = true) :
    isNameCharacter c = false := by
  have hunderscore : c ≠ '_' := by
    rintro rfl
    exact absurd houtside (by decide)
  rw [isNameCharacter, Text.isLetterOrNumber_of_outsideNames houtside, Bool.false_or,
    beq_eq_false_iff_ne]
  exact hunderscore

theorem ne_of_isNameCharacter {c sign : Char} (hc : isNameCharacter c = true)
    (houtside : Text.outsideNames.contains sign = true) : c ≠ sign := by
  rintro rfl
  rw [not_isNameCharacter houtside] at hc
  cases hc

theorem isIdentifier_eq_false_of_mem {c : Char} (hmem : c ∈ name.toList)
    (houtside : Text.outsideNames.contains c = true) : isIdentifier name = false := by
  by_contra hidentifier
  rw [Bool.not_eq_false] at hidentifier
  have hname := isNameCharacter_of_isIdentifier hidentifier c hmem
  exact ne_of_isNameCharacter hname houtside rfl

theorem isIdentifier_eq_false_of_any (hany : name.toList.any Text.outsideNames.contains = true) :
    isIdentifier name = false := by
  obtain ⟨c, hmem, houtside⟩ := List.any_eq_true.mp hany
  exact isIdentifier_eq_false_of_mem hmem houtside

theorem not_isBlank_of_isNameCharacter {c : Char} (hc : isNameCharacter c = true) :
    Text.isBlank c = false := by
  by_contra hblank
  rw [not_isNameCharacter (Text.outsideNames_of_isBlank (Bool.not_eq_false _ ▸ hblank))] at hc
  cases hc

/-- The characters of names are neither white space nor signs of the language. -/
theorem plain_of_isNameCharacter {c : Char} (hc : isNameCharacter c = true) :
    Text.isBlank c = false ∧ c ≠ '\x60' ∧ c ≠ '#' ∧ ExprTokens.isStructural c = false := by
  refine ⟨not_isBlank_of_isNameCharacter hc, ne_of_isNameCharacter hc (by decide),
    ne_of_isNameCharacter hc (by decide), ?_⟩
  by_contra hstructural
  rw [Bool.not_eq_false, ExprTokens.isStructural] at hstructural
  have hsigns : "[]|():：".toList.all Text.outsideNames.contains = true := by
    decide
  have hmem : c ∈ "[]|():：".toList := List.contains_iff_mem.mp hstructural
  exact ne_of_isNameCharacter hc (List.all_eq_true.mp hsigns c hmem) rfl

/-- Names are cut out of a line again. -/
theorem Writable.of_isIdentifier (hidentifier : isIdentifier name = true) : Writable name := by
  have hname := isNameCharacter_of_isIdentifier hidentifier
  have hdash : isNameCharacter '-' ≠ true :=
    Bool.eq_false_iff.mp (not_isNameCharacter (by decide))
  refine .of_not_isStructural (ne_empty_of_isIdentifier hidentifier)
    (fun c hc => plain_of_isNameCharacter (hname c hc)) ?_
  unfold ArrowDirection.ofMarker?
  split
  · exact absurd (hname '-' (by decide)) hdash
  · exact absurd (hname '-' (by decide)) hdash
  · rfl

/-- A name is a word of its line. -/
theorem lineWords_cons_of_isIdentifier (hidentifier : isIdentifier name = true)
    (tokens : List String) : lineWords (name :: tokens) = name :: lineWords tokens := by
  rw [lineWords_cons, lineWords_of_not_blank (ne_empty_of_isIdentifier hidentifier) fun c hc =>
    not_isBlank_of_isNameCharacter (isNameCharacter_of_isIdentifier hidentifier c hc)]
  rfl

end LineScript
