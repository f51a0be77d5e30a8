import LineScript.Expr.Progress

/-!
# Nesting of brackets

Each level of brackets takes a token, so that the number of tokens is a depth that their nesting
never exceeds.  Main statements: more depth changes nothing (`readNested_eq_readExpr`), and
`readExpr` obeys the equation of the grammar, in which no depth occurs (`readExpr_eq`).

The proof compares two readers for the inside of brackets that agree on short token lists.  Every
level is a congruence for this agreement, and `readPrimary`, which consumes the bracket, makes the
lists one token longer.
-/

namespace LineScript

variable {α β : Type} {inner inner' : InnerReader} {size : Nat}

/-! ## Readings that go on alike -/

/-- Two continuations that agree on everything that a reading can leave. -/
theorem Reading.andThen_congr {tokens : List String} {reading : Reading α}
    {next next' : α → Reader β} (hleaves : reading.Leaves tokens)
    (hnext : ∀ value rest, rest.length ≤ tokens.length → next value rest = next' value rest) :
    reading.andThen next = reading.andThen next' := by
  cases reading with
  | ok value rest => exact hnext value rest hleaves.length_le
  | error => rfl

/-- Two continuations that agree on everything that a reading can leave which advances. -/
theorem Reading.andThen_congr_of_advances {tokens : List String} {reading : Reading α}
    {next next' : α → Reader β} (hadvances : reading.Advances tokens)
    (hnext : ∀ value rest, rest.length < tokens.length → next value rest = next' value rest) :
    reading.andThen next = reading.andThen next' := by
  cases reading with
  | ok value rest => exact hnext value rest hadvances.2
  | error => rfl

open Reading

/-! ## Readers that agree on short token lists -/

/-- The readers give the same on at most `bound` tokens. -/
def Reader.Agree (bound : Nat) (reader reader' : Reader α) : Prop :=
  ∀ tokens, tokens.length ≤ bound → reader tokens = reader' tokens

open Reader (Agree)

theorem readChainRest_congr {operator : String → Option BinaryOp} {operand operand' : Reader Expr}
    (hadvances : operand.Advances) (hagree : Agree size operand operand') (bound : Nat)
    (left : Expr) : Agree size (readChainRest operator operand bound left)
      (readChainRest operator operand' bound left) := by
  induction bound generalizing left with
  | zero => exact fun _ _ => rfl
  | succ bound ih =>
      intro tokens hlength
      cases tokens with
      | nil => rfl
      | cons token rest =>
          have hrest : rest.length ≤ size := Nat.le_of_succ_le hlength
          unfold readChainRest
          split
          · rfl
          · rw [hagree rest hrest]
            exact andThen_congr (hagree rest hrest ▸ (hadvances rest).leaves)
              fun right after hafter => ih _ after (Nat.le_trans hafter hrest)

theorem readChain_congr {operator : String → Option BinaryOp} {operand operand' : Reader Expr}
    (hadvances : operand.Advances) (hagree : Agree size operand operand') :
    Agree size (readChain operator operand) (readChain operator operand') := by
  intro tokens hlength
  unfold readChain
  rw [← hagree tokens hlength]
  exact andThen_congr (hadvances tokens).leaves fun first rest hrest =>
    readChainRest_congr hadvances hagree rest.length first rest (Nat.le_trans hrest hlength)

theorem readMore_congr {item item' : Reader α} (hadvances : item.Advances)
    (hagree : Agree size item item') (bound : Nat) :
    Agree size (readMore item bound) (readMore item' bound) := by
  induction bound with
  | zero => exact fun _ _ => rfl
  | succ bound ih =>
      intro tokens hlength
      unfold readMore
      split
      next rest hbound =>
        cases hbound
        have hrest : rest.length ≤ size := Nat.le_of_succ_le hlength
        rw [← hagree rest hrest]
        exact andThen_congr (hadvances rest).leaves fun first after hafter => by
          rw [ih after (Nat.le_trans hafter hrest)]
      next => rfl

theorem readItems_congr {item item' : Reader α} (bracket : Bracket)
    (hadvances : item.Advances) (hagree : Agree size item item') :
    Agree size (readItems bracket item) (readItems bracket item') := by
  intro tokens hlength
  unfold readItems
  rw [← hagree tokens hlength]
  exact andThen_congr (hadvances tokens).leaves fun first rest hrest => by
    rw [readMore_congr hadvances hagree rest.length rest (Nat.le_trans hrest hlength)]

theorem readEntry_congr (hadvances : ∀ context, (inner context).Advances)
    (hagree : ∀ context, Agree size (inner context) (inner' context)) :
    Agree size (readEntry inner) (readEntry inner') := by
  intro tokens hlength
  unfold readEntry
  rw [← hagree .value tokens hlength]
  refine andThen_congr (hadvances .value tokens).leaves fun key rest hrest => ?_
  cases rest with
  | nil => rfl
  | cons token after =>
      simp only
      rw [hagree .value after (Nat.le_of_succ_le (Nat.le_trans hrest hlength))]

theorem readEntries_congr (hadvances : ∀ context, (inner context).Advances)
    (hagree : ∀ context, Agree size (inner context) (inner' context)) :
    Agree size (readEntries inner) (readEntries inner') := by
  intro tokens hlength
  unfold readEntries
  rw [readItems_congr .dict (readEntry_advances hadvances) (readEntry_congr hadvances hagree)
    tokens hlength]

theorem readDict_congr (hadvances : ∀ context, (inner context).Advances)
    (hagree : ∀ context, Agree size (inner context) (inner' context)) :
    Agree size (readDict inner) (readDict inner') := by
  intro tokens hlength
  unfold readDict
  split
  · rfl
  · exact readEntries_congr hadvances hagree _ hlength

theorem readBracketed_congr (hadvances : ∀ context, (inner context).Advances)
    (hagree : ∀ context, Agree size (inner context) (inner' context)) :
    Agree size (readBracketed inner) (readBracketed inner') := by
  intro tokens hlength
  unfold readBracketed
  split
  · rfl
  · rw [← hagree .value tokens hlength]
    refine andThen_congr (hadvances .value tokens).leaves fun first rest hrest => ?_
    rw [readEntries_congr hadvances hagree tokens hlength,
      readMore_congr (hadvances .value) (hagree .value) rest.length rest
        (Nat.le_trans hrest hlength)]

theorem readIndices_congr (hadvances : ∀ context, (inner context).Advances)
    (hagree : ∀ context, Agree size (inner context) (inner' context)) (bound : Nat)
    (container : Expr) :
    Agree size (readIndices inner bound container) (readIndices inner' bound container) := by
  induction bound generalizing container with
  | zero => exact fun _ _ => rfl
  | succ bound ih =>
      intro tokens hlength
      unfold readIndices
      split
      next rest hbound =>
        cases hbound
        have hrest : rest.length ≤ size := Nat.le_of_succ_le hlength
        rw [← hagree .value rest hrest]
        exact andThen_congr (hadvances .value rest).leaves fun index after hafter =>
          andThen_congr (readClosing_advances .index after).leaves fun _ behind hbehind =>
            ih _ behind (Nat.le_trans hbehind (Nat.le_trans hafter hrest))
      next => rfl

theorem readArguments_congr (hadvances : ∀ context, (inner context).Advances)
    (hagree : ∀ context, Agree size (inner context) (inner' context)) (bound : Nat) :
    Agree size (readArguments inner bound) (readArguments inner' bound) := by
  induction bound with
  | zero => exact fun _ _ => rfl
  | succ bound ih =>
      intro tokens hlength
      cases tokens with
      | nil => rfl
      | cons token rest =>
          unfold readArguments
          rw [← hagree .value _ hlength]
          exact andThen_congr (hadvances .value _).leaves fun first after hafter => by
            rw [ih after (Nat.le_trans hafter hlength)]

theorem readAll_congr (hadvances : ∀ context, (inner context).Advances)
    (hagree : ∀ context, Agree size (inner context) (inner' context)) (context : Context)
    {tokens : List String} (hlength : tokens.length ≤ size) :
    readAll inner context tokens = readAll inner' context tokens := by
  unfold readAll
  rw [← hagree context tokens hlength]
  rw [andThen_congr (hadvances context tokens).leaves fun expr rest hrest => ?_]
  split
  · rfl
  · rw [readArguments_congr hadvances hagree _ _ (Nat.le_trans hrest hlength)]
  · rfl

theorem readGroup_congr (hadvances : ∀ context, (inner context).Advances)
    (hagree : ∀ context, Agree size (inner context) (inner' context)) :
    Agree size (readGroup inner) (readGroup inner') := by
  intro tokens hlength
  unfold readGroup
  split
  · rfl
  · rfl
  next inside after _ hsplit =>
    rw [readAll_congr hadvances hagree .name
      (Nat.le_trans (Nat.le_of_lt (splitAtClosing_eq_some hsplit).1) hlength)]

theorem readPrimary_congr (hadvances : ∀ context, (inner context).Advances)
    (hagree : ∀ context, Agree size (inner context) (inner' context)) (known : KnownNames)
    (context : Context) :
    Agree (size + 1) (readPrimary inner known context) (readPrimary inner' known context) := by
  intro tokens hlength
  cases tokens with
  | nil => rfl
  | cons token rest =>
      have hrest : rest.length ≤ size := Nat.le_of_succ_le_succ hlength
      have htail : rest.tail.length ≤ size :=
        Nat.le_trans (List.tail_suffix rest).length_le hrest
      unfold readPrimary
      simp only
      rw [readGroup_congr hadvances hagree rest hrest, readDict_congr hadvances hagree _ htail,
        readBracketed_congr hadvances hagree rest hrest]

theorem readIndexed_congr (hadvances : ∀ context, (inner context).Advances)
    (hagree : ∀ context, Agree size (inner context) (inner' context)) (known : KnownNames)
    (context : Context) :
    Agree (size + 1) (readIndexed inner known context) (readIndexed inner' known context) := by
  intro tokens hlength
  unfold readIndexed
  rw [← readPrimary_congr hadvances hagree known context tokens hlength]
  exact andThen_congr_of_advances (readPrimary_advances hadvances known context tokens)
    fun container rest hrest => readIndices_congr hadvances hagree rest.length container rest
      (Nat.le_of_lt_succ (Nat.lt_of_lt_of_le hrest hlength))

theorem readSigned_congr {operand operand' : Reader Expr} (hagree : Agree size operand operand') :
    Agree size (readSigned operand) (readSigned operand') := by
  intro tokens hlength
  fun_induction readSigned operand tokens with
  | case1 sign next rest op hsign ih =>
      rw [ih (Nat.le_of_succ_le hlength)]
      simp [readSigned, hsign]
  | case2 sign next rest hsign =>
      rw [hagree _ hlength]
      simp [readSigned, hsign]
  | case3 tokens hshort =>
      rw [hagree _ hlength]
      unfold readSigned
      split
      · exact absurd rfl (hshort _ _ _)
      · rfl

theorem readComparison_congr {sum sum' : Context → Reader Expr}
    (hadvances : ∀ context, (sum context).Advances)
    (hagree : ∀ context, Agree size (sum context) (sum' context)) (context : Context) :
    Agree size (readComparison sum context) (readComparison sum' context) := by
  intro tokens hlength
  unfold readComparison
  rw [← hagree context tokens hlength]
  refine andThen_congr (hadvances context tokens).leaves fun left rest hrest => ?_
  cases rest with
  | nil => rfl
  | cons token after =>
      simp only
      rw [hagree .value after (Nat.le_of_succ_le (Nat.le_trans hrest hlength))]

theorem readNegation_congr {comparison comparison' : Reader Expr}
    (hagree : Agree size comparison comparison') :
    Agree size (readNegation comparison) (readNegation comparison') := by
  intro tokens hlength
  fun_induction readNegation comparison tokens with
  | case1 => exact hagree _ hlength
  | case2 token rest htoken ih =>
      rw [ih (Nat.le_of_succ_le hlength)]
      simp [readNegation, htoken]
  | case3 token rest htoken =>
      rw [hagree _ hlength]
      simp [readNegation, htoken]

theorem readSum_congr (hadvances : ∀ context, (inner context).Advances)
    (hagree : ∀ context, Agree size (inner context) (inner' context)) (known : KnownNames)
    (context : Context) :
    Agree (size + 1) (readSum inner known context) (readSum inner' known context) :=
  have hsigned := readSigned_advances (readIndexed_advances hadvances known context)
  readChain_congr (readChain_advances hsigned)
    (readChain_congr hsigned (readSigned_congr (readIndexed_congr hadvances hagree known context)))

/-- What the loosest level gives on tokens hangs only on what stands inside of brackets there, and
that is shorter. -/
theorem readDisjunction_congr (hadvances : ∀ context, (inner context).Advances)
    (hagree : ∀ context, Agree size (inner context) (inner' context)) (known : KnownNames)
    (context : Context) :
    Agree (size + 1) (readDisjunction inner known context)
      (readDisjunction inner' known context) :=
  have hnegation := readNegation_advances
    (readComparison_advances (readSum_advances hadvances known) context)
  readChain_congr (readChain_advances hnegation)
    (readChain_congr hnegation (readNegation_congr
      (readComparison_congr (readSum_advances hadvances known)
        (readSum_congr hadvances hagree known) context)))

/-! ## The bound on the depth -/

theorem readNested_succ_of_length_le (known : KnownNames) {depth : Nat} (context : Context)
    {tokens : List String} (hlength : tokens.length ≤ depth) :
    readNested known (depth + 1) context tokens = readNested known depth context tokens := by
  induction depth generalizing context tokens with
  | zero =>
      cases List.eq_nil_of_length_eq_zero (Nat.le_zero.mp hlength)
      rfl
  | succ depth ih =>
      exact readDisjunction_congr (readNested_advances known (depth + 1))
        (fun context tokens => ih context) known context tokens hlength

/-- More depth than there are tokens changes nothing. -/
theorem readNested_eq_readExpr (known : KnownNames) {depth : Nat} (context : Context)
    {tokens : List String} (hlength : tokens.length ≤ depth) :
    readNested known depth context tokens = readExpr known context tokens := by
  induction hlength with
  | refl => rfl
  | step hle ih => exact (readNested_succ_of_length_le known context hle).trans ih

/-- An expression is what the loosest level of the grammar gives, with expressions inside of
brackets. -/
theorem readExpr_eq (known : KnownNames) (context : Context) (tokens : List String) :
    readExpr known context tokens = readDisjunction (readExpr known) known context tokens := by
  rw [← readNested_eq_readExpr known context (Nat.le_succ tokens.length)]
  exact readDisjunction_congr (readNested_advances known tokens.length)
    (fun context _ hlength => readNested_eq_readExpr known context hlength) known context tokens
    (Nat.le_succ tokens.length)

end LineScript
