import LineScript.Expr.Read

/-!
# Progress of the readers

A reader leaves a final part of its tokens, also where it fails, and a shorter one whenever it has
read something.  Main statement: this holds of `readExpr` (`readExpr_advances`), because it holds
of every level of the grammar over any reader for the inside of brackets that advances itself.

There are two strengths of this.  A loop may read nothing, and so only leaves a final part
(`Reading.Leaves`); a level reads at least one token if it succeeds (`Reading.Advances`).  A level
in front of a loop advances, and so does a token in front of either.  Every bound in the readers is
justified by this one fact: the number of tokens that are left falls with each round.
-/

namespace LineScript

namespace Reading

variable {α β : Type}

/-- The reading leaves a final part of the tokens. -/
def Leaves (tokens : List String) (reading : Reading α) : Prop := reading.rest <:+ tokens

/-- The reading leaves a final part of the tokens, and if it is successful not all of them. -/
def Advances (tokens : List String) : Reading α → Prop
  | .ok _ rest => rest <:+ tokens ∧ rest.length < tokens.length
  | .error _ rest => rest <:+ tokens

theorem Advances.leaves {tokens : List String} {reading : Reading α}
    (hadvances : reading.Advances tokens) : reading.Leaves tokens := by
  cases reading with
  | ok => exact hadvances.1
  | error => exact hadvances

/-- A reading of a shorter final part advances on the whole. -/
theorem Leaves.advances {tokens between : List String} {reading : Reading α}
    (hleaves : reading.Leaves between) (hsuffix : between <:+ tokens)
    (hlength : between.length < tokens.length) : reading.Advances tokens := by
  cases reading with
  | ok _ rest =>
      exact ⟨hleaves.trans hsuffix, Nat.lt_of_le_of_lt hleaves.length_le hlength⟩
  | error => exact hleaves.trans hsuffix

/-- A reading of the tokens behind a first one. -/
theorem Leaves.cons {token : String} {tokens : List String} {reading : Reading α}
    (hleaves : reading.Leaves tokens) : reading.Advances (token :: tokens) :=
  hleaves.advances (List.suffix_cons token tokens) (Nat.lt_succ_self _)

theorem Leaves.andThen {tokens : List String} {reading : Reading α} {next : α → Reader β}
    (hleaves : reading.Leaves tokens) (hnext : ∀ value rest, (next value rest).Leaves rest) :
    (reading.andThen next).Leaves tokens := by
  cases reading with
  | ok value rest => exact (hnext value rest).trans hleaves
  | error => exact hleaves

theorem Advances.andThen {tokens : List String} {reading : Reading α} {next : α → Reader β}
    (hadvances : reading.Advances tokens) (hnext : ∀ value rest, (next value rest).Leaves rest) :
    (reading.andThen next).Advances tokens := by
  cases reading with
  | ok value rest => exact (hnext value rest).advances hadvances.1 hadvances.2
  | error => exact hadvances

theorem Leaves.map {tokens : List String} {reading : Reading α} (f : α → β)
    (hleaves : reading.Leaves tokens) : (reading.map f).Leaves tokens :=
  hleaves.andThen fun _ rest => List.suffix_refl rest

theorem Advances.map {tokens : List String} {reading : Reading α} (f : α → β)
    (hadvances : reading.Advances tokens) : (reading.map f).Advances tokens :=
  hadvances.andThen fun _ rest => List.suffix_refl rest

end Reading

open Reading

/-- The reader advances on all tokens. -/
def Reader.Advances {α : Type} (reader : Reader α) : Prop :=
  ∀ tokens, (reader tokens).Advances tokens

/-! ## Each reader advances -/

theorem readChainRest_leaves {operator : String → Option BinaryOp} {operand : Reader Expr}
    (hoperand : operand.Advances) (bound : Nat) (left : Expr) (tokens : List String) :
    (readChainRest operator operand bound left tokens).Leaves tokens := by
  induction bound generalizing left tokens with
  | zero => exact List.suffix_refl tokens
  | succ bound ih =>
      cases tokens with
      | nil => exact List.suffix_refl []
      | cons token rest =>
          unfold readChainRest
          split
          · exact List.suffix_refl _
          · exact ((hoperand rest).leaves.andThen fun right after => ih _ after).cons.leaves

theorem readChain_advances {operator : String → Option BinaryOp} {operand : Reader Expr}
    (hoperand : operand.Advances) : (readChain operator operand).Advances := fun tokens =>
  (hoperand tokens).andThen fun first rest =>
    readChainRest_leaves hoperand rest.length first rest

theorem readClosing_advances (bracket : Bracket) : (readClosing bracket).Advances := by
  intro tokens
  unfold readClosing
  split
  · exact ⟨List.suffix_cons _ _, Nat.lt_succ_self _⟩
  · exact List.suffix_refl _

theorem readMore_leaves {α : Type} {item : Reader α} (hitem : item.Advances) (bound : Nat)
    (tokens : List String) : (readMore item bound tokens).Leaves tokens := by
  induction bound generalizing tokens with
  | zero => exact List.suffix_refl tokens
  | succ bound ih =>
      unfold readMore
      split
      next hbound =>
        cases hbound
        exact ((hitem _).leaves.andThen fun first after => (ih after).map _).cons.leaves
      next => exact List.suffix_refl _

theorem readItems_advances {α : Type} {item : Reader α} (bracket : Bracket)
    (hitem : item.Advances) : (readItems bracket item).Advances := fun tokens =>
  (hitem tokens).andThen fun _ rest =>
    (readMore_leaves hitem rest.length rest).andThen fun _ after =>
      (readClosing_advances bracket after).leaves.map _

variable {inner : InnerReader}

theorem readEntry_advances (hinner : ∀ context, (inner context).Advances) :
    (readEntry inner).Advances := fun tokens =>
  (hinner .value tokens).andThen fun key rest => by
    split
    · split
      · exact ((hinner .value _).leaves.map _).cons.leaves
      · exact List.suffix_refl _
    · exact List.suffix_refl _

theorem readEntries_advances (hinner : ∀ context, (inner context).Advances) :
    (readEntries inner).Advances := fun tokens =>
  (readItems_advances .dict (readEntry_advances hinner) tokens).map _

theorem readDict_advances (hinner : ∀ context, (inner context).Advances) :
    (readDict inner).Advances := by
  intro tokens
  unfold readDict
  split
  · exact ⟨List.suffix_cons _ _, Nat.lt_succ_self _⟩
  · exact readEntries_advances hinner _

theorem readBracketed_advances (hinner : ∀ context, (inner context).Advances) :
    (readBracketed inner).Advances := by
  intro tokens
  unfold readBracketed
  split
  · exact ⟨List.suffix_cons _ _, Nat.lt_succ_self _⟩
  · have hfirst := hinner .value tokens
    cases hreading : inner .value tokens with
    | error => rw [hreading] at hfirst; exact hfirst
    | ok first rest =>
        rw [hreading] at hfirst
        rw [andThen_ok]
        split
        · exact readEntries_advances hinner tokens
        · exact ((readMore_leaves (hinner .value) _ rest).andThen fun _ after =>
            (readClosing_advances .list after).leaves.map _).advances hfirst.1 hfirst.2

theorem readIndices_leaves (hinner : ∀ context, (inner context).Advances) (bound : Nat)
    (container : Expr) (tokens : List String) :
    (readIndices inner bound container tokens).Leaves tokens := by
  induction bound generalizing container tokens with
  | zero => exact List.suffix_refl tokens
  | succ bound ih =>
      unfold readIndices
      split
      next hbound =>
        cases hbound
        -- an index and its bracket, then the indices behind them
        exact ((hinner .value _).leaves.andThen fun index after =>
          (readClosing_advances .index after).leaves.andThen fun _ behind =>
            ih _ behind).cons.leaves
      next => exact List.suffix_refl _

/-- Splitting drops nothing but the closing token. -/
theorem append_of_splitAtClosing {opening closing : String} {depth : Nat}
    {tokens inside after : List String}
    (hsplit : splitAtClosing opening closing depth tokens = some (inside, after)) :
    inside ++ closing :: after = tokens := by
  induction tokens generalizing depth inside after with
  | nil => simp [splitAtClosing] at hsplit
  | cons token rest ih =>
      -- a token that does not close the search is in front of what is found behind it
      have hpush {depth : Nat}
          (h : (splitAtClosing opening closing depth rest).map
            (fun parts => (token :: parts.1, parts.2)) = some (inside, after)) :
          inside ++ closing :: after = token :: rest := by
        obtain ⟨⟨inner, behind⟩, hinner, heq⟩ := Option.map_eq_some_iff.mp h
        cases heq
        rw [List.cons_append, ih hinner]
      unfold splitAtClosing at hsplit
      simp only at hsplit
      split at hsplit
      · exact hpush hsplit
      · split at hsplit
        next hclosing =>
          split at hsplit
          · cases hsplit
            rw [List.nil_append, hclosing]
          · exact hpush hsplit
        · exact hpush hsplit

/-- What stands between two matching tokens is shorter than what follows the first of them, and
what follows the second one is a final part. -/
theorem splitAtClosing_eq_some {opening closing : String} {depth : Nat}
    {tokens inside after : List String}
    (hsplit : splitAtClosing opening closing depth tokens = some (inside, after)) :
    inside.length < tokens.length ∧ after <:+ tokens := by
  obtain rfl := append_of_splitAtClosing hsplit
  refine ⟨?_, (List.suffix_cons closing after).trans (List.suffix_append inside _)⟩
  rw [List.length_append, List.length_cons]
  omega

/-- After an opening parenthesis. -/
theorem readGroup_advances (tokens : List String) :
    (readGroup inner tokens).Advances ("(" :: tokens) := by
  unfold readGroup
  split
  · exact List.suffix_refl _
  · exact List.suffix_refl _
  next inside after _ hsplit =>
    obtain ⟨hlength, hsuffix⟩ := splitAtClosing_eq_some hsplit
    -- what is left is behind the closing parenthesis, whatever the inside reads as
    have hafter : after <:+ "(" :: tokens := hsuffix.trans (List.suffix_cons ..)
    split
    · exact hafter
    · exact hafter
    · split
      · exact ⟨hafter, Nat.lt_succ_of_le hsuffix.length_le⟩
      · exact hafter

theorem readPrimary_advances (hinner : ∀ context, (inner context).Advances) (known : KnownNames)
    (context : Context) : (readPrimary inner known context).Advances := by
  intro tokens
  unfold readPrimary
  split
  · exact List.suffix_refl _
  next token rest =>
    have hrest {α : Type} {value : α} : (Reading.ok value rest).Advances (token :: rest) :=
      ⟨List.suffix_cons _ _, Nat.lt_succ_self _⟩
    split
    · exact hrest
    · split
      next htoken => exact htoken ▸ readGroup_advances rest
      · split
        · exact Leaves.cons
            ((readDict_advances hinner rest.tail).leaves.trans (List.tail_suffix rest))
        · split
          · exact (readBracketed_advances hinner rest).leaves.cons
          · exact hrest

theorem readIndexed_advances (hinner : ∀ context, (inner context).Advances) (known : KnownNames)
    (context : Context) : (readIndexed inner known context).Advances := fun tokens =>
  (readPrimary_advances hinner known context tokens).andThen fun container rest =>
    readIndices_leaves hinner rest.length container rest

theorem readSigned_advances {operand : Reader Expr} (hoperand : operand.Advances) :
    (readSigned operand).Advances := by
  intro tokens
  fun_induction readSigned operand tokens with
  | case1 sign next rest op _ ih => exact (ih.leaves.map _).cons
  | case2 sign next rest => exact hoperand _
  | case3 tokens => exact hoperand _

theorem readComparison_advances {sum : Context → Reader Expr}
    (hsum : ∀ context, (sum context).Advances) (context : Context) :
    (readComparison sum context).Advances := fun tokens =>
  (hsum context tokens).andThen fun left rest => by
    split
    · exact List.suffix_refl _
    · split
      · exact List.suffix_refl _
      · exact ((hsum .value _).leaves.map _).cons.leaves

theorem readNegation_advances {comparison : Reader Expr} (hcomparison : comparison.Advances) :
    (readNegation comparison).Advances := by
  intro tokens
  fun_induction readNegation comparison tokens with
  | case1 => exact hcomparison _
  | case2 token rest _ ih => exact (ih.leaves.map _).cons
  | case3 token rest => exact hcomparison _

theorem readSum_advances (hinner : ∀ context, (inner context).Advances) (known : KnownNames)
    (context : Context) : (readSum inner known context).Advances :=
  readChain_advances (readChain_advances (readSigned_advances
    (readIndexed_advances hinner known context)))

theorem readDisjunction_advances (hinner : ∀ context, (inner context).Advances)
    (known : KnownNames) (context : Context) : (readDisjunction inner known context).Advances :=
  readChain_advances (readChain_advances (readNegation_advances
    (readComparison_advances (readSum_advances hinner known) context)))

theorem readNested_advances (known : KnownNames) (depth : Nat) (context : Context) :
    (readNested known depth context).Advances := by
  induction depth generalizing context with
  | zero => exact fun tokens => List.suffix_refl tokens
  | succ depth ih => exact readDisjunction_advances ih known context

theorem readExpr_advances (known : KnownNames) (context : Context) :
    (readExpr known context).Advances := fun tokens =>
  readNested_advances known tokens.length context tokens

end LineScript
