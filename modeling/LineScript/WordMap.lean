/-!
# Maps and sets of words

A `WordMap` is a finite map from words to values that lists its entries by word, in the order of
code points and each word once.  Two maps with the same entries are therefore equal.  A `WordSet`
is a map to nothing.
-/

namespace LineScript

/-- A finite map from words, listed in the order of the words. -/
structure WordMap (α : Type) where
  /-- The words and their values. -/
  entries : List (String × α)
  /-- The words increase along the list. -/
  ordered : entries.Pairwise fun left right => left.1 < right.1
  deriving DecidableEq

namespace WordMap

variable {α : Type}

/-- The map without entries. -/
def empty : WordMap α := ⟨[], .nil⟩

instance : Inhabited (WordMap α) := ⟨empty⟩

/-- Puts a word at its place in an ordered list, over an entry of the same word. -/
def insertEntry (word : String) (value : α) : List (String × α) → List (String × α)
  | [] => [(word, value)]
  | (other, kept) :: rest =>
      if word < other then (word, value) :: (other, kept) :: rest
      else if word = other then (word, value) :: rest
      else (other, kept) :: insertEntry word value rest

theorem mem_insertEntry {word : String} {value : α} {entries : List (String × α)}
    {entry : String × α} (hmem : entry ∈ insertEntry word value entries) :
    entry = (word, value) ∨ entry ∈ entries := by
  induction entries with
  | nil => simpa [insertEntry] using hmem
  | cons head rest ih =>
      obtain ⟨other, kept⟩ := head
      unfold insertEntry at hmem
      split at hmem
      · simpa using hmem
      · split at hmem
        · rcases List.mem_cons.mp hmem with h | h
          · exact .inl h
          · exact .inr (List.mem_cons_of_mem _ h)
        · rcases List.mem_cons.mp hmem with h | h
          · exact .inr (h ▸ List.mem_cons_self ..)
          · exact (ih h).imp_right (List.mem_cons_of_mem _)

theorem ordered_insertEntry (word : String) (value : α) {entries : List (String × α)}
    (hordered : entries.Pairwise fun left right => left.1 < right.1) :
    (insertEntry word value entries).Pairwise fun left right => left.1 < right.1 := by
  induction entries with
  | nil => simp [insertEntry]
  | cons head rest ih =>
      obtain ⟨other, kept⟩ := head
      obtain ⟨hhead, hrest⟩ := List.pairwise_cons.mp hordered
      unfold insertEntry
      split
      next hlt =>
        refine List.pairwise_cons.mpr ⟨fun entry hmem => ?_, hordered⟩
        rcases List.mem_cons.mp hmem with rfl | h
        · exact hlt
        · exact String.lt_trans hlt (hhead _ h)
      next hle =>
        split
        next heq => exact List.pairwise_cons.mpr ⟨heq ▸ hhead, hrest⟩
        next hne =>
          refine List.pairwise_cons.mpr ⟨fun entry hmem => ?_, ih hrest⟩
          rcases mem_insertEntry hmem with rfl | h
          · exact (Std.lt_trichotomy other word).resolve_right fun h =>
              h.elim (fun h => hne h.symm) hle
          · exact hhead _ h

/-- Maps a word to a value, whatever it was mapped to before. -/
def insert (map : WordMap α) (word : String) (value : α) : WordMap α :=
  ⟨insertEntry word value map.entries, ordered_insertEntry word value map.ordered⟩

/-- The value of a word. -/
def get? (map : WordMap α) (word : String) : Option α := map.entries.lookup word

/-- Whether a word is mapped to a value. -/
def contains (map : WordMap α) (word : String) : Bool := (map.get? word).isSome

/-- The words of a map, in order. -/
def words (map : WordMap α) : List String := map.entries.map (·.1)

/-- The number of words of a map. -/
def size (map : WordMap α) : Nat := map.entries.length

/-- The map of a list of entries; of two entries of one word the later counts. -/
def ofList (entries : List (String × α)) : WordMap α :=
  entries.foldl (fun map entry => map.insert entry.1 entry.2) empty

@[simp] theorem get?_empty (word : String) : (empty : WordMap α).get? word = none := rfl

theorem lookup_insertEntry_self (word : String) (value : α) (entries : List (String × α)) :
    (insertEntry word value entries).lookup word = some value := by
  induction entries with
  | nil => exact List.lookup_cons_self
  | cons head rest ih =>
      obtain ⟨first, kept⟩ := head
      unfold insertEntry
      split
      · exact List.lookup_cons_self
      · split
        · exact List.lookup_cons_self
        next hne =>
          have hfirst : (word == first) = false := beq_eq_false_iff_ne.mpr hne
          rw [List.lookup_cons, hfirst]
          exact ih

theorem lookup_insertEntry_of_ne {word other : String} (hother : other ≠ word) (value : α)
    (entries : List (String × α)) :
    (insertEntry word value entries).lookup other = entries.lookup other := by
  have hbeq : (other == word) = false := beq_eq_false_iff_ne.mpr hother
  induction entries with
  | nil => rw [insertEntry, List.lookup_cons, hbeq]
  | cons head rest ih =>
      obtain ⟨first, kept⟩ := head
      unfold insertEntry
      split
      · rw [List.lookup_cons, hbeq]
      · split
        next heq =>
          subst heq
          rw [List.lookup_cons, List.lookup_cons, hbeq]
        next => rw [List.lookup_cons, List.lookup_cons, ih]

@[simp] theorem get?_insert (map : WordMap α) (word other : String) (value : α) :
    (map.insert word value).get? other = if other = word then some value else map.get? other := by
  split
  next heq =>
    subst heq
    exact lookup_insertEntry_self other value map.entries
  next hne => exact lookup_insertEntry_of_ne hne value map.entries

theorem contains_insert (map : WordMap α) (word other : String) (value : α) :
    (map.insert word value).contains other = (decide (other = word) || map.contains other) := by
  by_cases h : other = word <;> simp [contains, h]

end WordMap

/-- A finite set of words. -/
abbrev WordSet := WordMap Unit

namespace WordSet

/-- Adds a word. -/
def add (set : WordSet) (word : String) : WordSet := set.insert word ()

/-- The set of a list of words. -/
def ofWords (words : List String) : WordSet := words.foldl add .empty

theorem contains_add (set : WordSet) (word other : String) :
    (set.add word).contains other = (decide (other = word) || set.contains other) :=
  set.contains_insert word other ()

end WordSet

/-! ## Known names -/

/-- The names that are variables at some point of a program. -/
abbrev KnownNames := WordSet

/-- Makes a name a variable; there is no variable without a name. -/
def KnownNames.declare (known : KnownNames) (name : String) : KnownNames :=
  if name.isEmpty then known else known.add name

/-- Declares names one after the other. -/
def KnownNames.declareAll (known : KnownNames) (names : List String) : KnownNames :=
  names.foldl KnownNames.declare known

end LineScript
