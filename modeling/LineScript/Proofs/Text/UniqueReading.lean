import Mathlib.Data.List.TakeWhile

/-!
# Reading from the left in one way

Two texts that are the same may be put together from the same parts, if it shows where the first
part ends.  A run of characters of a kind ends in front of the first character of another kind
(`run_inj`).  A text in which every character is escaped ends in front of the first quote, if
escaped characters can be told apart and none of them begins like a quote (`escaped_inj`).
-/

namespace LineScript

/-! ## Runs of characters -/

section Runs

variable {p : Char → Bool} {word word' rest rest' : List Char}

theorem takeWhile_append_of_stop (hword : ∀ c ∈ word, p c = true)
    (hrest : ∀ c ∈ rest.head?, p c = false) : (word ++ rest).takeWhile p = word := by
  rw [List.takeWhile_append_of_pos hword]
  cases rest with
  | nil => exact List.append_nil word
  | cons c rest =>
      have hc : ¬ p c = true := Bool.eq_false_iff.mp (hrest c rfl)
      rw [List.takeWhile_cons_of_neg hc, List.append_nil]

/-- Two runs of characters of a kind that end in the same text are the same. -/
theorem run_inj (hword : ∀ c ∈ word, p c = true) (hword' : ∀ c ∈ word', p c = true)
    (hrest : ∀ c ∈ rest.head?, p c = false) (hrest' : ∀ c ∈ rest'.head?, p c = false)
    (heq : word ++ rest = word' ++ rest') : word = word' ∧ rest = rest' := by
  obtain rfl : word = word' := by
    rw [← takeWhile_append_of_stop hword hrest, heq, takeWhile_append_of_stop hword' hrest']
  exact ⟨rfl, List.append_cancel_left heq⟩

end Runs

/-! ## Texts in quotes -/

/-- A way to write characters between quotes: what is written for a character shows which one it is
and where it ends, and it does not begin like the quote. -/
structure Escapes (escape : Char → List Char) (quote : Char) : Prop where
  inj : ∀ {c d : Char} {rest rest' : List Char},
    escape c ++ rest = escape d ++ rest' → c = d ∧ rest = rest'
  append_ne : ∀ (c : Char) (rest rest' : List Char), escape c ++ rest ≠ quote :: rest'

/-- The first quote that is not escaped ends a text. -/
theorem Escapes.escaped_inj {escape : Char → List Char} {quote : Char}
    (hescapes : Escapes escape quote)
    {text text' rest rest' : List Char}
    (heq : text.flatMap escape ++ quote :: rest = text'.flatMap escape ++ quote :: rest') :
    text = text' ∧ rest = rest' := by
  induction text generalizing text' with
  | nil =>
      cases text' with
      | nil => exact ⟨rfl, (List.cons.inj heq).2⟩
      | cons d others =>
          rw [List.flatMap_cons, List.append_assoc] at heq
          -- one text ends where the other goes on: a quote is no escaped character
          exact absurd heq.symm (hescapes.append_ne d _ _)
  | cons c more ih =>
      cases text' with
      | nil =>
          rw [List.flatMap_cons, List.append_assoc] at heq
          exact absurd heq (hescapes.append_ne c _ _)
      | cons d others =>
          rw [List.flatMap_cons, List.flatMap_cons, List.append_assoc, List.append_assoc] at heq
          obtain ⟨rfl, hbehind⟩ := hescapes.inj heq
          obtain ⟨rfl, hrest⟩ := ih hbehind
          exact ⟨rfl, hrest⟩

end LineScript
