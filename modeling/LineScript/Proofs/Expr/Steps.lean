import LineScript.Expr.Nesting

/-!
# Steps of the readers

What a reader does on tokens of a known shape.  The loops take a number that bounds their length;
every bound that is no less than the number of tokens gives the same, so that each loop has a step
and a stop in which no bound occurs.

The induction is on the bound, for all tokens that it is enough for.  A round of a loop reads a
token in front of its item, and so what is left is short enough for both bounds; only arguments have
nothing in front of them, and rely on the reader of the item to advance.  Congruence for readings
takes care of the rest: two readings that go on with the same readers for all shorter final parts
are the same (`andThen_congr`, `andThen_congr_of_advances`).
-/

namespace LineScript

open Reading

variable {α : Type} {inner : InnerReader} {operator : String → Option BinaryOp}
  {operand : Reader Expr} {item : Reader α}

/-! ## Bounds of the loops -/

theorem readChainRest_bound (hoperand : operand.Advances) {bound bound' : Nat}
    {tokens : List String}
    (left : Expr) (hbound : tokens.length ≤ bound) (hbound' : tokens.length ≤ bound') :
    readChainRest operator operand bound left tokens =
      readChainRest operator operand bound' left tokens := by
  induction bound generalizing bound' left tokens with
  | zero =>
      cases List.eq_nil_of_length_eq_zero (Nat.le_zero.mp hbound)
      cases bound' <;> rfl
  | succ bound ih =>
      cases tokens with
      | nil => cases bound' <;> rfl
      | cons token rest =>
          cases bound' with
          | zero => exact absurd hbound' (Nat.not_succ_le_zero _)
          | succ bound' =>
              simp only [readChainRest]
              split
              · rfl
              · -- the operator is read, hence fewer tokens than before are left
                refine andThen_congr (hoperand rest).leaves fun right after hafter => ?_
                rw [List.length_cons] at hbound hbound'
                exact ih _ (by omega) (by omega)

theorem readMore_bound (hitem : item.Advances) {bound bound' : Nat} {tokens : List String}
    (hbound : tokens.length ≤ bound) (hbound' : tokens.length ≤ bound') :
    readMore item bound tokens = readMore item bound' tokens := by
  induction bound generalizing bound' tokens with
  | zero =>
      cases List.eq_nil_of_length_eq_zero (Nat.le_zero.mp hbound)
      cases bound' <;> rfl
  | succ bound ih =>
      cases bound' with
      | zero =>
          cases List.eq_nil_of_length_eq_zero (Nat.le_zero.mp hbound')
          rfl
      | succ bound' =>
          unfold readMore
          split
          next rest heq =>
            cases heq
            -- the bar is read
            refine andThen_congr (hitem rest).leaves fun first after hafter => ?_
            rw [List.length_cons] at hbound hbound'
            rw [ih (by omega) (by omega : after.length ≤ bound')]
          next hno =>
            split
            next rest heq => exact absurd rfl (hno _ _ rfl)
            next => rfl

theorem readIndices_bound (hinner : ∀ context, (inner context).Advances) {bound bound' : Nat}
    {tokens : List String} (container : Expr) (hbound : tokens.length ≤ bound)
    (hbound' : tokens.length ≤ bound') :
    readIndices inner bound container tokens = readIndices inner bound' container tokens := by
  induction bound generalizing bound' container tokens with
  | zero =>
      cases List.eq_nil_of_length_eq_zero (Nat.le_zero.mp hbound)
      cases bound' <;> rfl
  | succ bound ih =>
      cases bound' with
      | zero =>
          cases List.eq_nil_of_length_eq_zero (Nat.le_zero.mp hbound')
          rfl
      | succ bound' =>
          unfold readIndices
          split
          next rest heq =>
            cases heq
            -- the opening bracket is read
            refine andThen_congr (hinner .value rest).leaves fun index after hafter => ?_
            refine andThen_congr (readClosing_advances .index after).leaves
              fun _ behind hbehind => ?_
            rw [List.length_cons] at hbound hbound'
            exact ih _ (by omega) (by omega)
          next hno =>
            split
            next rest heq => exact absurd rfl (hno _ _ rfl)
            next => rfl

theorem readArguments_bound (hinner : ∀ context, (inner context).Advances) {bound bound' : Nat}
    {tokens : List String} (hbound : tokens.length ≤ bound) (hbound' : tokens.length ≤ bound') :
    readArguments inner bound tokens = readArguments inner bound' tokens := by
  induction bound generalizing bound' tokens with
  | zero =>
      cases List.eq_nil_of_length_eq_zero (Nat.le_zero.mp hbound)
      cases bound' <;> rfl
  | succ bound ih =>
      cases tokens with
      | nil => cases bound' <;> rfl
      | cons token rest =>
          cases bound' with
          | zero => exact absurd hbound' (Nat.not_succ_le_zero _)
          | succ bound' =>
              unfold readArguments
              -- nothing stands in front of an argument, which has to advance itself
              refine andThen_congr_of_advances (hinner .value _) fun first after hafter => ?_
              rw [List.length_cons] at hbound hbound' hafter
              rw [ih (by omega) (by omega : after.length ≤ bound')]

/-! ## Steps of the loops -/

/-- A round of the loop for operators. -/
theorem readChainRest_cons (hoperand : operand.Advances) {op : BinaryOp} {word : String}
    (left : Expr) (tokens : List String) (hop : operator word = some op) :
    readChainRest operator operand (word :: tokens).length left (word :: tokens) =
      (operand tokens).andThen fun right after =>
        readChainRest operator operand after.length (.binary op left right) after := by
  simp only [List.length_cons, readChainRest, hop]
  exact andThen_congr (hoperand tokens).leaves fun right after hafter =>
    readChainRest_bound hoperand _ hafter (Nat.le_refl _)

/-- The loop of a chain combines its operand with the next one. -/
theorem readChainRest_operator (hoperand : operand.Advances) {op : BinaryOp} {word : String}
    {left right : Expr} {tokens after : List String} (hop : operator word = some op)
    (hright : operand tokens = .ok right after) :
    readChainRest operator operand (word :: tokens).length left (word :: tokens) =
      readChainRest operator operand after.length (.binary op left right) after := by
  rw [readChainRest_cons hoperand left tokens hop, hright, andThen_ok]

theorem readChainRest_stop {left : Expr} {rest : List String}
    (hstop : ∀ token ∈ rest.head?, operator token = none) (bound : Nat) :
    readChainRest operator operand bound left rest = .ok left rest := by
  cases bound with
  | zero => rfl
  | succ bound =>
      cases rest with
      | nil => rfl
      | cons token behind => simp [readChainRest, hstop token rfl]

/-- A round of the loop for indices. -/
theorem readIndices_cons (hinner : ∀ context, (inner context).Advances) (container : Expr)
    (tokens : List String) :
    readIndices inner ("[" :: tokens).length container ("[" :: tokens) =
      (inner .value tokens).andThen fun index after =>
        (readClosing .index after).andThen fun _ behind =>
          readIndices inner behind.length (.index container index) behind := by
  rw [List.length_cons, readIndices]
  refine andThen_congr (hinner .value tokens).leaves fun index after hafter => ?_
  exact andThen_congr (readClosing_advances .index after).leaves fun _ behind hbehind =>
    readIndices_bound hinner _ (Nat.le_trans hbehind hafter) (Nat.le_refl _)

theorem readIndices_bracket (hinner : ∀ context, (inner context).Advances)
    {container index : Expr} {tokens behind : List String}
    (hindex : inner .value tokens = .ok index ("]" :: behind)) :
    readIndices inner ("[" :: tokens).length container ("[" :: tokens) =
      readIndices inner behind.length (.index container index) behind := by
  rw [readIndices_cons hinner, hindex, andThen_ok]
  rfl

theorem readIndices_stop {container : Expr} {rest : List String} (hstop : rest.head? ≠ some "[")
    (bound : Nat) : readIndices inner bound container rest = .ok container rest := by
  unfold readIndices
  split
  · exact absurd rfl hstop
  · rfl

/-- A round of the loop for items. -/
theorem readMore_cons (hitem : item.Advances) (tokens : List String) :
    readMore item ("|" :: tokens).length ("|" :: tokens) =
      (item tokens).andThen fun first after =>
        (readMore item after.length after).map (first :: ·) := by
  rw [List.length_cons, readMore]
  refine andThen_congr (hitem tokens).leaves fun first after hafter => ?_
  rw [readMore_bound hitem hafter (Nat.le_refl _)]

theorem readMore_stop {rest : List String} (hstop : rest.head? ≠ some "|") (bound : Nat) :
    readMore item bound rest = .ok [] rest := by
  unfold readMore
  split
  · exact absurd rfl hstop
  · rfl

/-- A round of the loop for arguments. -/
theorem readArguments_cons (hinner : ∀ context, (inner context).Advances) (token : String)
    (tokens : List String) :
    readArguments inner (token :: tokens).length (token :: tokens) =
      (inner .value (token :: tokens)).andThen fun first after =>
        (readArguments inner after.length after).map (first :: ·) := by
  rw [List.length_cons, readArguments]
  refine andThen_congr_of_advances (hinner .value _) fun first after hafter => ?_
  rw [readArguments_bound hinner (Nat.le_of_lt_succ hafter) (Nat.le_refl _)]

/-- Behind an item without a bar the items end. -/
theorem readItems_stop {bracket : Bracket} {value : α} {tokens rest : List String}
    (hitem : item tokens = .ok value rest) (hstop : rest.head? ≠ some "|") :
    readItems bracket item tokens = (readClosing bracket rest).map fun _ => [value] := by
  rw [readItems, hitem, andThen_ok, readMore_stop hstop, andThen_ok]

theorem readItems_last {bracket : Bracket} {value : α} {tokens rest : List String}
    (hitem : item tokens = .ok value ("]" :: rest)) :
    readItems bracket item tokens = .ok [value] rest := by
  rw [readItems_stop hitem (by simp)]
  rfl

/-- What is read behind a bar is what the loop for items reads in its next round. -/
theorem readItems_bar (hadvances : item.Advances) {bracket : Bracket} {value : α}
    {tokens more : List String} (hitem : item tokens = .ok value ("|" :: more)) :
    readItems bracket item tokens = (readItems bracket item more).map (value :: ·) := by
  simp only [readItems, hitem, andThen_ok, readMore_cons hadvances]
  cases item more with
  | error cause rest => rfl
  | ok first between =>
      simp only [andThen_ok]
      cases readMore item between.length between with
      | error cause rest => rfl
      | ok others after =>
          simp only [Reading.map, andThen_ok]
          cases readClosing bracket after <;> rfl

theorem readSigned_of_not_sign {first : String} (hsign : UnaryOp.ofSign? first = none)
    (rest : List String) : readSigned operand (first :: rest) = operand (first :: rest) := by
  cases rest <;> simp [readSigned, hsign]

/-! ## Brackets -/

/-- Without a colon behind its first expression a literal is a list, -/
theorem readBracketed_eq_list {tokens after : List String} {first : Expr}
    (hhead : tokens.head? ≠ some "]") (hfirst : inner .value tokens = .ok first after)
    (hcolon : after.head?.any isColon = false) :
    readBracketed inner tokens = (readItems .list (inner .value) tokens).map .list := by
  unfold readBracketed
  split
  · exact absurd rfl hhead
  · simp only [readItems, hfirst, andThen_ok, hcolon, Bool.false_eq_true, if_false]
    cases readMore (inner .value) after.length after with
    | error cause rest => rfl
    | ok others behind =>
        simp only [Reading.map, andThen_ok]
        cases readClosing .list behind <;> rfl

/-- and with one it is a dictionary. -/
theorem readBracketed_eq_dict {tokens after : List String} {first : Expr}
    (hhead : tokens.head? ≠ some "]") (hfirst : inner .value tokens = .ok first after)
    (hcolon : after.head?.any isColon = true) :
    readBracketed inner tokens = readEntries inner tokens := by
  unfold readBracketed
  split
  · exact absurd rfl hhead
  · rw [hfirst, andThen_ok, hcolon, if_pos rfl]

theorem readBracketed_of_error {tokens after : List String} {cause : ExprError}
    (hhead : tokens.head? ≠ some "]") (hfirst : inner .value tokens = .error cause after) :
    readBracketed inner tokens = .error cause after := by
  unfold readBracketed
  split
  · exact absurd rfl hhead
  · rw [hfirst, andThen_error]

theorem readDict_eq_readEntries {tokens : List String} (hhead : tokens.head? ≠ some "]") :
    readDict inner tokens = readEntries inner tokens := by
  unfold readDict
  split
  · exact absurd rfl hhead
  · rfl

theorem readEntry_colon {key value : Expr} {colon : String} {tokens behind rest : List String}
    (hcolon : isColon colon = true) (hkey : inner .value tokens = .ok key (colon :: behind))
    (hvalue : inner .value behind = .ok value rest) :
    readEntry inner tokens = .ok (key, value) rest := by
  rw [readEntry, hkey, andThen_ok]
  simp only [hcolon, if_true]
  rw [hvalue]
  rfl

end LineScript
