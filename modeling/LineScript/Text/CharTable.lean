/-!
# Tables of code points

A character class of a standard is a list of closed intervals of code points.  The tables of this
library are all of this one shape, so that each of them is only data.
-/

namespace LineScript.Text

/-- A set of characters, as closed intervals of code points. -/
abbrev CharTable := List (Nat × Nat)

/-- Whether a character lies in one of the intervals. -/
def CharTable.contains (table : CharTable) (c : Char) : Bool :=
  table.any fun interval => interval.1 ≤ c.toNat && c.toNat ≤ interval.2

theorem CharTable.contains_iff {table : CharTable} {c : Char} :
    table.contains c = true ↔ ∃ interval ∈ table, interval.1 ≤ c.toNat ∧ c.toNat ≤ interval.2 := by
  simp [CharTable.contains]

end LineScript.Text
