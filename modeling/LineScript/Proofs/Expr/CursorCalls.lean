import LineScript.Proofs.Expr.Cursor
import LineScript.Proofs.Expr.Steps

/-!
# What the calls of a cursor read

A cursor does not move over the tokens that are left, as the readers do, but from place to place in
all tokens.  What is left at a place is a final part of the tokens, so each procedure has a reader
behind it (`Procedure.reader`), and a reading is an outcome with places for final parts
(`Outcome.ofReading`).

## Strategy

That a procedure comes to what its reader reads is shown for one procedure at a time here, given
that this is so for the calls that it makes itself (`Agrees`).  The proofs follow one pattern: the
token at the place is the first of those that are left (`getElem?_place`), a call behind it has the
reading as its outcome, and what is done with the outcome is what the reader does with the reading
(`Outcome.andThen_ofReading`).

Calls stand behind a token less, or are of a procedure further down in the grammar, so they need
less depth (`Procedure.need`): ten times the tokens that are left, and a rank that orders the
procedures.  The entries of a dictionary rank above an expression because they begin with one at the
same place; that they read the first key again is no obstacle, since the bracket in front of it is
left behind.

Two procedures collect what they have read so far, whereas the readers put the first item in front
of what they read later.  Their readers carry the earlier items along (`reader_elements_bar`,
`reader_arguments_cons`).  For entries the order of the checks matters too: an error of the key
comes before a missing colon, and that before an error of the value (`reader_entries`).
-/

namespace LineScript

open Reading

namespace Cursor

variable {known : KnownNames} {tokens rest : List String} {α β : Type}

/-! ## Places -/

/-- The place of a final part of the tokens. -/
def place (tokens rest : List String) : Nat := tokens.length - rest.length

theorem place_self (tokens : List String) : place tokens tokens = 0 := Nat.sub_self _

theorem place_append (front rest : List String) : place (front ++ rest) rest = front.length := by
  rw [place, List.length_append, Nat.add_sub_cancel]

theorem getElem?_place (hrest : rest <:+ tokens) : tokens[place tokens rest]? = rest.head? := by
  obtain ⟨front, rfl⟩ := hrest
  rw [place_append, List.getElem?_append_right (Nat.le_refl _), Nat.sub_self,
    List.head?_eq_getElem?]

theorem drop_place (hrest : rest <:+ tokens) : tokens.drop (place tokens rest) = rest := by
  obtain ⟨front, rfl⟩ := hrest
  rw [place_append, List.drop_left]

theorem place_cons {token : String} (hrest : token :: rest <:+ tokens) :
    place tokens (token :: rest) + 1 = place tokens rest := by
  have hlength := hrest.length_le
  simp only [place, List.length_cons] at hlength ⊢
  omega

theorem length_le_place_iff (hrest : rest <:+ tokens) :
    tokens.length ≤ place tokens rest ↔ rest = [] := by
  have hlength := hrest.length_le
  rw [← List.length_eq_zero_iff, place]
  omega

theorem suffix_of_cons {token : String} (hrest : token :: rest <:+ tokens) : rest <:+ tokens :=
  (List.suffix_cons token rest).trans hrest

/-! ## Readings as outcomes -/

/-- A reading of some tokens, with the place of the cursor for the tokens that are left. -/
def Outcome.ofReading (tokens : List String) : Reading α → Outcome α
  | .ok value rest => .ok value (place tokens rest)
  | .error cause rest => .error cause (place tokens rest)

/-- A cursor that has advanced goes on as a reader does. -/
theorem Outcome.andThen_ofReading {reading : Reading α} {next : α → Nat → Outcome β}
    {next' : α → Reader β} (hadvances : reading.Advances rest)
    (hnext : ∀ value after, after <:+ rest → after.length < rest.length →
      next value (place tokens after) = .ofReading tokens (next' value after)) :
    (Outcome.ofReading tokens reading).andThen next =
      .ofReading tokens (reading.andThen next') := by
  cases reading with
  | ok value after => exact hnext value after hadvances.1 hadvances.2
  | error => rfl

theorem Outcome.map_ofReading (f : α → β) (reading : Reading α) :
    (Outcome.ofReading tokens reading).map f = .ofReading tokens (reading.map f) := by
  cases reading <;> rfl

/-! ## The readers of the procedures -/

/-- The reader for the operands of a level. -/
def Level.operandReader (known : KnownNames) (context : Context) : Level → Reader Expr
  | .disjunction => readConjunction (readExpr known) known context
  | .conjunction => readNegation (readComparison (readSum (readExpr known) known) context)
  | .sum => readProduct (readExpr known) known context
  | .product => readSigned (readIndexed (readExpr known) known context)

theorem Level.operandReader_advances (context : Context) (level : Level) :
    (level.operandReader known context).Advances := by
  have hsigned := readSigned_advances (readIndexed_advances (readExpr_advances known) known context)
  have hnegation := readNegation_advances
    (readComparison_advances (readSum_advances (readExpr_advances known) known) context)
  cases level with
  | disjunction => exact readChain_advances hnegation
  | conjunction => exact hnegation
  | sum => exact readChain_advances hsigned
  | product => exact hsigned

/-- What a procedure reads behind the cursor. -/
def Procedure.reader (known : KnownNames) : Procedure → Reader Expr
  | .chain level context => readChain level.operator? (level.operandReader known context)
  | .chainRest level context left => fun tokens =>
      readChainRest level.operator? (level.operandReader known context) tokens.length left tokens
  | .negation context => readNegation (readComparison (readSum (readExpr known) known) context)
  | .comparison context => readComparison (readSum (readExpr known) known) context
  | .signed context => readSigned (readIndexed (readExpr known) known context)
  | .indexed context => readIndexed (readExpr known) known context
  | .indices container => fun tokens =>
      readIndices (readExpr known) tokens.length container tokens
  | .primary context => readPrimary (readExpr known) known context
  | .elements earlier => fun tokens =>
      (readMore (readExpr known .value) tokens.length tokens).andThen fun more after =>
        (readClosing .list after).map fun _ => .list (earlier ++ more)
  | .entries earlier => fun tokens =>
      (readItems .dict (readEntry (readExpr known)) tokens).map fun more => .dict (earlier ++ more)
  | .arguments func earlier => fun tokens =>
      (readArguments (readExpr known) tokens.length tokens).map fun more =>
        .call func (earlier ++ more)

theorem reader_operand (level : Level) (context : Context) :
    (level.operand context).reader known = level.operandReader known context := by
  cases level <;> rfl

theorem reader_expression (context : Context) :
    (Procedure.expression context).reader known = readExpr known context :=
  funext fun tokens => (readExpr_eq known context tokens).symm

/-! ## How deep calls nest -/

/-- How many calls a procedure may be in without having stepped over a token. -/
def Procedure.rank : Procedure → Nat
  | .chainRest .. | .indices _ | .primary _ | .elements _ => 0
  | .indexed _ => 1
  | .signed _ => 2
  | .chain .product _ => 3
  | .chain .sum _ => 4
  | .comparison _ => 5
  | .negation _ => 6
  | .chain .conjunction _ => 7
  | .chain .disjunction _ => 8
  | .entries _ | .arguments .. => 9

/-- A depth below which the calls of a procedure nest, for the number of tokens left. -/
def Procedure.need (procedure : Procedure) (left : Nat) : Nat := 10 * left + procedure.rank

theorem rank_le (procedure : Procedure) : procedure.rank ≤ 9 := by
  cases procedure with
  | chain level _ => cases level <;> simp [Procedure.rank]
  | _ => simp [Procedure.rank]

theorem rank_operand_lt (level : Level) (context : Context) :
    (level.operand context).rank < (Procedure.chain level context).rank := by
  cases level <;> simp [Level.operand, Procedure.rank]

/-- With a token less, any procedure may be called. -/
theorem need_lt_of_lt {procedure procedure' : Procedure} {left left' : Nat} (hlt : left' < left) :
    procedure'.need left' < procedure.need left := by
  have := rank_le procedure'
  unfold Procedure.need
  omega

theorem need_lt_of_rank_lt {procedure procedure' : Procedure} {left : Nat}
    (hrank : procedure'.rank < procedure.rank) : procedure'.need left < procedure.need left := by
  unfold Procedure.need
  omega

/-! ## Calls that agree with the readers -/

/-- Calls that need less depth than the bound come to what the readers read. -/
def Agrees (known : KnownNames) (call : Caller) (bound : Nat) : Prop :=
  ∀ ⦃tokens procedure rest⦄, rest <:+ tokens → procedure.need rest.length < bound →
    call tokens procedure (place tokens rest) = .ofReading tokens (procedure.reader known rest)

variable {call : Caller}

namespace Agrees

theorem mono {bound bound' : Nat} (hcall : Agrees known call bound) (hle : bound' ≤ bound) :
    Agrees known call bound' := fun _ _ _ hrest hneed =>
  hcall hrest (Nat.lt_of_lt_of_le hneed hle)

variable {procedure : Procedure} (hcall : Agrees known call (procedure.need rest.length))
include hcall

/-- A call with fewer tokens left. -/
theorem behind {tokens after : List String} (hafter : after <:+ tokens)
    (hlt : after.length < rest.length) (procedure' : Procedure) :
    call tokens procedure' (place tokens after) =
      .ofReading tokens (procedure'.reader known after) :=
  hcall hafter (need_lt_of_lt hlt)

/-- A call of a procedure of a lower rank. -/
theorem below (hrest : rest <:+ tokens) (procedure' : Procedure)
    (hrank : procedure'.rank < procedure.rank) :
    call tokens procedure' (place tokens rest) =
      .ofReading tokens (procedure'.reader known rest) :=
  hcall hrest (need_lt_of_rank_lt hrank)

theorem expression_behind {tokens after : List String} (hafter : after <:+ tokens)
    (hlt : after.length < rest.length) (context : Context) :
    call tokens (.expression context) (place tokens after) =
      .ofReading tokens (readExpr known context after) := by
  rw [hcall.behind hafter hlt, reader_expression]

theorem expression_below (hrest : rest <:+ tokens) (hrank : 8 < procedure.rank)
    (context : Context) :
    call tokens (.expression context) (place tokens rest) =
      .ofReading tokens (readExpr known context rest) := by
  rw [hcall.below hrest (.expression context) hrank, reader_expression]

end Agrees

/-! ## Operators -/

theorem perform_chain (hrest : rest <:+ tokens) (level : Level) (context : Context)
    (hcall : Agrees known call ((Procedure.chain level context).need rest.length)) :
    perform known call tokens (place tokens rest) (.chain level context) =
      .ofReading tokens ((Procedure.chain level context).reader known rest) := by
  rw [perform, hcall.below hrest _ (rank_operand_lt level context), reader_operand]
  apply Outcome.andThen_ofReading (level.operandReader_advances context rest)
  intro left after hafter hlt
  exact hcall.behind (hafter.trans hrest) hlt (.chainRest level context left)

theorem perform_chainRest (hrest : rest <:+ tokens) (level : Level) (context : Context)
    (left : Expr)
    (hcall : Agrees known call ((Procedure.chainRest level context left).need rest.length)) :
    perform known call tokens (place tokens rest) (.chainRest level context left) =
      .ofReading tokens ((Procedure.chainRest level context left).reader known rest) := by
  have hadvances : (level.operandReader known context).Advances :=
    level.operandReader_advances context
  simp only [perform, Procedure.reader, getElem?_place hrest]
  cases rest with
  | nil => rfl
  | cons word more =>
      cases hop : level.operator? word with
      | none =>
          -- no operator: the loop ends where it stands
          rw [readChainRest_stop (by simpa using hop)]
          simp [hop, Outcome.ofReading]
      | some op =>
          have hmore := suffix_of_cons hrest
          rw [readChainRest_cons hadvances left more hop]
          simp only [List.head?_cons, Option.bind_some, hop]
          rw [place_cons hrest, hcall.behind hmore (Nat.lt_succ_self _), reader_operand]
          apply Outcome.andThen_ofReading (hadvances more)
          -- the loop goes on behind the operand, with fewer tokens left
          intro right after hafter hlt
          exact hcall.behind (hafter.trans hmore) (Nat.lt_succ_of_lt hlt)
            (.chainRest level context (.binary op left right))

theorem perform_negation (hrest : rest <:+ tokens) (context : Context)
    (hcall : Agrees known call ((Procedure.negation context).need rest.length)) :
    perform known call tokens (place tokens rest) (.negation context) =
      .ofReading tokens ((Procedure.negation context).reader known rest) := by
  have hcomparison : call tokens (.comparison context) (place tokens rest) =
      .ofReading tokens ((Procedure.comparison context).reader known rest) :=
    hcall.below hrest _ (by simp [Procedure.rank])
  simp only [perform, Procedure.reader, getElem?_place hrest]
  cases rest with
  | nil => exact hcomparison
  | cons word more =>
      cases hword : isNotWord word with
      | true =>
          simp only [List.head?_cons, Option.any_some, readNegation, hword, if_true]
          -- behind the word the same procedure is called, a token further
          rw [place_cons hrest, hcall.behind (suffix_of_cons hrest) (Nat.lt_succ_self _),
            Outcome.map_ofReading]
          rfl
      | false =>
          simp only [List.head?_cons, Option.any_some, readNegation, hword, Bool.false_eq_true,
            if_false]
          exact hcomparison

theorem perform_comparison (hrest : rest <:+ tokens) (context : Context)
    (hcall : Agrees known call ((Procedure.comparison context).need rest.length)) :
    perform known call tokens (place tokens rest) (.comparison context) =
      .ofReading tokens ((Procedure.comparison context).reader known rest) := by
  have hsum (context : Context) : (Procedure.chain .sum context).reader known =
      readSum (readExpr known) known context := rfl
  rw [perform, hcall.below hrest _ (by simp [Procedure.rank]), hsum]
  apply Outcome.andThen_ofReading (readSum_advances (readExpr_advances known) known context rest)
  -- the comparison word is looked for behind the left side
  intro left between hbetween hlt
  have hplace := hbetween.trans hrest
  rw [getElem?_place hplace]
  cases between with
  | nil => rfl
  | cons word more =>
      simp only [List.head?_cons, Option.bind_some]
      cases hop : BinaryOp.ofComparisonWord? word with
      | none => rfl
      | some op =>
          simp only
          rw [place_cons hplace,
            hcall.behind (suffix_of_cons hplace) (Nat.lt_of_succ_lt hlt), Outcome.map_ofReading]
          rfl

theorem perform_signed (hrest : rest <:+ tokens) (context : Context)
    (hcall : Agrees known call ((Procedure.signed context).need rest.length)) :
    perform known call tokens (place tokens rest) (.signed context) =
      .ofReading tokens ((Procedure.signed context).reader known rest) := by
  have hindexed : call tokens (.indexed context) (place tokens rest) =
      .ofReading tokens ((Procedure.indexed context).reader known rest) :=
    hcall.below hrest _ (by simp [Procedure.rank])
  simp only [perform, Procedure.reader, getElem?_place hrest]
  cases rest with
  | nil => exact hindexed
  | cons sign more =>
      have hmore := suffix_of_cons hrest
      simp only [List.head?_cons, Option.bind_some]
      cases hop : UnaryOp.ofSign? sign with
      | none =>
          rw [readSigned_of_not_sign hop]
          exact hindexed
      | some op =>
          simp only
          -- a sign at the end of the tokens is a word
          have hbehind : place tokens (sign :: more) + 1 < tokens.length ↔ more ≠ [] := by
            rw [place_cons hrest, ← Nat.not_le, length_le_place_iff hmore]
          cases more with
          | nil =>
              rw [if_neg (fun h => hbehind.mp h rfl)]
              exact hindexed
          | cons next behind =>
              rw [if_pos (hbehind.mpr (List.cons_ne_nil _ _)), place_cons hrest,
                hcall.behind hmore (Nat.lt_succ_self _), Outcome.map_ofReading]
              simp only [readSigned, hop]
              rfl

/-! ## Indices, elements, entries and arguments -/

theorem closing_place (hrest : rest <:+ tokens) (bracket : Bracket) :
    closing tokens bracket (place tokens rest) = .ofReading tokens (readClosing bracket rest) := by
  unfold closing
  rw [getElem?_place hrest]
  unfold readClosing
  split
  next hhead =>
    obtain ⟨behind, rfl⟩ := List.head?_eq_some_iff.mp hhead
    rw [place_cons hrest]
    rfl
  next hhead =>
    split
    · exact absurd rfl hhead
    · rfl

theorem perform_indexed (hrest : rest <:+ tokens) (context : Context)
    (hcall : Agrees known call ((Procedure.indexed context).need rest.length)) :
    perform known call tokens (place tokens rest) (.indexed context) =
      .ofReading tokens ((Procedure.indexed context).reader known rest) := by
  rw [perform, hcall.below hrest _ (by simp [Procedure.rank])]
  apply Outcome.andThen_ofReading
    (readPrimary_advances (readExpr_advances known) known context rest)
  intro container after hafter hlt
  exact hcall.behind (hafter.trans hrest) hlt (.indices container)

theorem perform_indices (hrest : rest <:+ tokens) (container : Expr)
    (hcall : Agrees known call ((Procedure.indices container).need rest.length)) :
    perform known call tokens (place tokens rest) (.indices container) =
      .ofReading tokens ((Procedure.indices container).reader known rest) := by
  simp only [perform, Procedure.reader, getElem?_place hrest]
  by_cases hhead : rest.head? = some "["
  · obtain ⟨more, rfl⟩ := List.head?_eq_some_iff.mp hhead
    have hmore := suffix_of_cons hrest
    rw [if_pos hhead, place_cons hrest, readIndices_cons (readExpr_advances known),
      hcall.expression_behind hmore (Nat.lt_succ_self _)]
    apply Outcome.andThen_ofReading (readExpr_advances known .value more)
    intro index between hbetween hlt
    have hplace := hbetween.trans hmore
    rw [closing_place hplace]
    apply Outcome.andThen_ofReading (readClosing_advances .index between)
    -- behind the bracket the same loop goes on, with a longer container
    intro _ after hafter hshorter
    exact hcall.behind (hafter.trans hplace) (Nat.lt_succ_of_lt (Nat.lt_trans hshorter hlt))
      (.indices (.index container index))
  · rw [if_neg hhead, readIndices_stop hhead]
    rfl

theorem reader_elements_bar (earlier : List Expr) (more : List String) :
    (Procedure.elements earlier).reader known ("|" :: more) =
      (readExpr known .value more).andThen fun element =>
        (Procedure.elements (earlier ++ [element])).reader known := by
  simp only [Procedure.reader, readMore_cons (readExpr_advances known .value)]
  cases readExpr known .value more with
  | error => rfl
  | ok element after =>
      simp only [andThen_ok]
      cases readMore (readExpr known .value) after.length after with
      | error => rfl
      | ok others behind => simp [Reading.map]

theorem reader_elements_stop (earlier : List Expr) (hstop : rest.head? ≠ some "|") :
    (Procedure.elements earlier).reader known rest =
      (readClosing .list rest).map fun _ => .list earlier := by
  simp only [Procedure.reader, readMore_stop hstop, andThen_ok, List.append_nil]

theorem perform_elements (hrest : rest <:+ tokens) (earlier : List Expr)
    (hcall : Agrees known call ((Procedure.elements earlier).need rest.length)) :
    perform known call tokens (place tokens rest) (.elements earlier) =
      .ofReading tokens ((Procedure.elements earlier).reader known rest) := by
  simp only [perform, getElem?_place hrest]
  by_cases hhead : rest.head? = some "|"
  · obtain ⟨more, rfl⟩ := List.head?_eq_some_iff.mp hhead
    have hmore := suffix_of_cons hrest
    rw [if_pos hhead, place_cons hrest, reader_elements_bar,
      hcall.expression_behind hmore (Nat.lt_succ_self _)]
    apply Outcome.andThen_ofReading (readExpr_advances known .value more)
    intro element after hafter hlt
    exact hcall.behind (hafter.trans hmore) (Nat.lt_succ_of_lt hlt)
      (.elements (earlier ++ [element]))
  · -- no bar: the bracket has to close here
    rw [if_neg hhead, reader_elements_stop earlier hhead, closing_place hrest,
      Outcome.map_ofReading]

/-- What comes behind the key of an entry: a colon, a value, and further entries if a bar is behind
it. -/
def readBehindKey (known : KnownNames) (earlier : List (Expr × Expr)) (key : Expr) : Reader Expr
  | [] => .error .missingColon []
  | colon :: behind =>
      if isColon colon then
        (readExpr known .value behind).andThen fun value after =>
          if after.head? = some "|" then
            (Procedure.entries (earlier ++ [(key, value)])).reader known after.tail
          else (readClosing .dict after).map fun _ => .dict (earlier ++ [(key, value)])
      else .error .missingColon (colon :: behind)

theorem reader_entries (earlier : List (Expr × Expr)) (rest : List String) :
    (Procedure.entries earlier).reader known rest =
      (readExpr known .value rest).andThen (readBehindKey known earlier) := by
  have hadvances := readEntry_advances (readExpr_advances known)
  -- an error of the key, of the colon or of the value is one of the entry, so the first one counts
  have herror {cause : ExprError} {after : List String}
      (hentry : readEntry (readExpr known) rest = .error cause after) :
      (Procedure.entries earlier).reader known rest = .error cause after := by
    simp only [Procedure.reader, readItems, hentry, andThen_error, Reading.map]
  cases hkey : readExpr known .value rest with
  | error => exact herror (by rw [readEntry, hkey, andThen_error])
  | ok key between =>
      rw [andThen_ok]
      cases between with
      | nil => exact herror (by rw [readEntry, hkey, andThen_ok])
      | cons colon behind =>
          cases hcolon : isColon colon with
          | false =>
              simp only [readBehindKey, hcolon, Bool.false_eq_true, if_false]
              exact herror (by simp [readEntry, hkey, hcolon])
          | true =>
              simp only [readBehindKey, hcolon, if_true]
              cases hvalue : readExpr known .value behind with
              | error => exact herror (by simp [readEntry, hkey, hcolon, hvalue, Reading.map])
              | ok value after =>
                  have hentry := readEntry_colon hcolon hkey hvalue
                  rw [andThen_ok]
                  -- behind the value either a bar and more entries, or the closing bracket
                  by_cases hbar : after.head? = some "|"
                  · obtain ⟨more, rfl⟩ := List.head?_eq_some_iff.mp hbar
                    rw [if_pos hbar]
                    simp only [Procedure.reader, readItems_bar hadvances hentry, List.tail_cons]
                    cases readItems .dict (readEntry (readExpr known)) more <;>
                      simp [Reading.map]
                  · rw [if_neg hbar]
                    simp only [Procedure.reader, readItems_stop hentry hbar]
                    cases readClosing .dict after <;> simp [Reading.map]

theorem perform_entries (hrest : rest <:+ tokens) (earlier : List (Expr × Expr))
    (hcall : Agrees known call ((Procedure.entries earlier).need rest.length)) :
    perform known call tokens (place tokens rest) (.entries earlier) =
      .ofReading tokens ((Procedure.entries earlier).reader known rest) := by
  rw [perform, reader_entries, hcall.expression_below hrest (by simp [Procedure.rank])]
  apply Outcome.andThen_ofReading (readExpr_advances known .value rest)
  intro key between hbetween hlt
  have hplace := hbetween.trans hrest
  rw [getElem?_place hplace]
  cases between with
  | nil => rfl
  | cons colon behind =>
      cases hcolon : isColon colon with
      | false =>
          simp only [List.head?_cons, Option.any_some, readBehindKey, hcolon, Bool.false_eq_true,
            if_false]
          rfl
      | true =>
          have hbehind := suffix_of_cons hplace
          have hshort : behind.length < rest.length := Nat.lt_of_succ_lt hlt
          simp only [List.head?_cons, Option.any_some, readBehindKey, hcolon, if_true]
          -- the value stands behind the colon, and further entries behind the value
          rw [place_cons hplace, hcall.expression_behind hbehind hshort]
          apply Outcome.andThen_ofReading (readExpr_advances known .value behind)
          intro value after hafter hshorter
          have hvalue := hafter.trans hbehind
          rw [getElem?_place hvalue]
          by_cases hbar : after.head? = some "|"
          · obtain ⟨more, rfl⟩ := List.head?_eq_some_iff.mp hbar
            rw [if_pos hbar, if_pos hbar, place_cons hvalue]
            exact hcall.behind (suffix_of_cons hvalue)
              (Nat.lt_trans (Nat.lt_of_succ_lt hshorter) hshort)
              (.entries (earlier ++ [(key, value)]))
          · rw [if_neg hbar, if_neg hbar, closing_place hvalue, Outcome.map_ofReading]

theorem reader_arguments_cons (func : String) (earlier : List Expr) (token : String)
    (more : List String) :
    (Procedure.arguments func earlier).reader known (token :: more) =
      (readExpr known .value (token :: more)).andThen fun arg =>
        (Procedure.arguments func (earlier ++ [arg])).reader known := by
  simp only [Procedure.reader, readArguments_cons (readExpr_advances known)]
  cases readExpr known .value (token :: more) with
  | error => rfl
  | ok arg after =>
      simp only [andThen_ok]
      cases readArguments (readExpr known) after.length after <;> simp [Reading.map]

theorem perform_arguments (hrest : rest <:+ tokens) (func : String) (earlier : List Expr)
    (hcall : Agrees known call ((Procedure.arguments func earlier).need rest.length)) :
    perform known call tokens (place tokens rest) (.arguments func earlier) =
      .ofReading tokens ((Procedure.arguments func earlier).reader known rest) := by
  rw [perform]
  cases rest with
  | nil =>
      -- the cursor is at the end exactly if no token is left
      rw [if_pos ((length_le_place_iff hrest).mpr rfl)]
      simp [Procedure.reader, readArguments, Reading.map, Outcome.ofReading]
  | cons token more =>
      rw [if_neg (fun h => List.cons_ne_nil _ _ ((length_le_place_iff hrest).mp h)),
        reader_arguments_cons, hcall.expression_below hrest (by simp [Procedure.rank])]
      apply Outcome.andThen_ofReading (readExpr_advances known .value _)
      intro arg after hafter hlt
      exact hcall.behind (hafter.trans hrest) hlt (.arguments func (earlier ++ [arg]))

end Cursor

end LineScript
