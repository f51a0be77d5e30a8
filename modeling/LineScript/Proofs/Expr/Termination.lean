import LineScript.Proofs.Expr.CursorCalls

/-!
# Reading by a cursor ends

Every procedure comes to what its reader reads once calls may nest deep enough, so nothing of a run
is cut off or out of range (`run_agrees`, by induction on the depth).

## Strategy

`CursorCalls.lean` has the procedures that move over one list.  Three are left, which are put
together from others: brackets, which may be read twice, groups, and the word that decides between
them.

* **Groups.**  The cursor looks for the closing parenthesis by counting from the opening one, and
  the readers by cutting a list in two; `matching?_succ` and `slice?_group` say that these are the
  same.  The tokens between the parentheses are a list of their own with a cursor of its own
  (`wholeOrNone_gives`).  They are fewer than the tokens that are left at the opening one, which is
  what the depth is counted by.
* **Depth.**  `perform_eq` collects the procedures, and `run_agrees` feeds it with itself, one depth
  lower.  Ten times one more than the number of tokens is enough at any place.

Where the cursor is afterwards follows from what readers leave: a successful one a shorter final
part, and one that fails a final part (`endsIn_ofReading`).  That is also why a session never goes
back, whatever errors it meets (`goesForward_session`).
-/

namespace LineScript

open Reading

namespace Cursor

variable {known : KnownNames} {tokens rest : List String} {α β : Type} {call : Caller}

/-! ## Parentheses -/

theorem matching?_succ (position depth : Nat) (rest : List String) :
    matching? position (depth + 1) rest = some ((splitAtClosing "(" ")" depth rest).map
      fun parts => position + parts.1.length) := by
  induction rest generalizing position depth with
  | nil => rfl
  | cons token more ih =>
      -- the position moves on with the token that is passed over
      have hnext (depth : Nat) : some ((splitAtClosing "(" ")" depth more).map
            fun parts => position + 1 + parts.1.length) =
          some (((splitAtClosing "(" ")" depth more).map
            fun parts => (token :: parts.1, parts.2)).map
              fun parts => position + parts.1.length) := by
        rw [Option.map_map]
        congr 2
        funext parts
        simp only [Function.comp_apply, List.length_cons]
        omega
      unfold matching? splitAtClosing
      simp only
      split
      · rw [ih, hnext]
      · split
        · cases depth with
          | zero => rfl
          | succ depth => exact (ih _ _).trans (hnext depth)
        · rw [ih, hnext]

/-- Between the parentheses nothing is out of range. -/
theorem slice?_group {inside after : List String}
    (hrest : "(" :: (inside ++ ")" :: after) <:+ tokens) :
    slice? tokens (place tokens ("(" :: (inside ++ ")" :: after)) + 1)
        (place tokens ("(" :: (inside ++ ")" :: after)) + 1 + inside.length) = some inside ∧
      place tokens ("(" :: (inside ++ ")" :: after)) + 1 + inside.length + 1 =
        place tokens after := by
  obtain ⟨front, rfl⟩ := hrest
  have htokens : front ++ "(" :: (inside ++ ")" :: after) =
      (front ++ "(" :: inside) ++ ")" :: after := by simp
  have hplace : place (front ++ "(" :: (inside ++ ")" :: after)) after =
      front.length + 1 + inside.length + 1 := by
    simp only [place, List.length_append, List.length_cons]
    omega
  rw [place_append, hplace]
  refine ⟨?_, rfl⟩
  rw [slice?, if_pos ⟨Nat.le_add_right _ _, by simp; omega⟩, htokens,
    List.take_left' (by simp; omega), List.append_cons, List.drop_left' (by simp)]

/-- What reading all tokens comes to, wherever the cursor is then. -/
def Outcome.Gives (outcome : Outcome α) (result : Except ExprError α) : Prop :=
  match result with
  | .ok value => ∃ position, outcome = .ok value position
  | .error cause => ∃ position, outcome = .error cause position

theorem wholeOrNone_gives {bound : Nat} (hcall : Agrees known call bound) (context : Context)
    {inside : List String} (hneed : 10 * inside.length + 9 < bound) :
    (wholeOrNone call inside context).Gives (readAll (readExpr known) context inside) := by
  -- a cursor of its own: it starts at the first token inside
  have hexpression : call inside (.expression context) 0 =
      .ofReading inside (readExpr known context inside) := by
    have hagrees : call inside (.expression context) (place inside inside) =
        .ofReading inside ((Procedure.expression context).reader known inside) :=
      hcall (List.suffix_refl inside) (Nat.lt_of_succ_lt hneed)
    rwa [place_self, reader_expression] at hagrees
  have hadvances := readExpr_advances known context inside
  cases inside with
  | nil => exact ⟨0, rfl⟩
  | cons token more =>
      unfold wholeOrNone whole readAll
      rw [hexpression]
      cases hread : readExpr known context (token :: more) with
      -- misplaced parentheses are passed on, and all other errors become no result
      | error cause after => cases cause <;> exact ⟨_, rfl⟩
      | ok expr after =>
          rw [hread] at hadvances
          obtain ⟨hafter, hlt⟩ := hadvances
          simp only [List.isEmpty_cons, Bool.false_eq_true, if_false, Outcome.ofReading,
            Outcome.andThen, andThen_ok, length_le_place_iff hafter]
          cases after with
          | nil => exact ⟨_, rfl⟩
          | cons first others =>
              rw [if_neg (List.cons_ne_nil first others)]
              cases expr with
              | ident func =>
                  have hargumentsNeed :
                      (Procedure.arguments func []).need (first :: others).length < bound := by
                    simp only [Procedure.need, Procedure.rank]
                    omega
                  have harguments := hcall hafter hargumentsNeed
                  simp only [harguments, Procedure.reader, Outcome.map_ofReading]
                  cases readArguments (readExpr known) (first :: others).length
                      (first :: others) with
                  | ok args behind => exact ⟨_, rfl⟩
                  | error cause behind => cases cause <;> exact ⟨_, rfl⟩
              | _ => exact ⟨_, rfl⟩

theorem group_eq {more : List String} (hrest : "(" :: more <:+ tokens)
    (hcall : Agrees known call (10 * (more.length + 1))) :
    group call tokens (place tokens ("(" :: more)) =
      .ofReading tokens (readGroup (readExpr known) more) := by
  have hmatching : matching? (place tokens ("(" :: more)) 0
      (tokens.drop (place tokens ("(" :: more))) = some ((splitAtClosing "(" ")" 0 more).map
        fun parts => place tokens ("(" :: more) + 1 + parts.1.length) := by
    rw [drop_place hrest, matching?, if_pos rfl, matching?_succ]
  rw [group, hmatching, readGroup]
  cases hsplit : splitAtClosing "(" ")" 0 more with
  | none => rfl
  | some parts =>
      obtain ⟨inside, after⟩ := parts
      have hinside : inside.length < more.length := (splitAtClosing_eq_some hsplit).1
      -- the tokens inside are fewer than those that are left
      have hneed : 10 * inside.length + 9 < 10 * (more.length + 1) := by omega
      -- what is left at the opening parenthesis, taken apart at the one that closes it
      obtain rfl := append_of_splitAtClosing hsplit
      obtain ⟨hslice, hplace⟩ := slice?_group hrest
      simp only [Option.map_some, hslice, hplace]
      cases inside with
      | nil => simp [Outcome.ofReading]
      | cons first others =>
          have hgives := wholeOrNone_gives hcall .name hneed
          rw [if_neg (by simp)]
          simp only
          generalize readAll (readExpr known) .name (first :: others) = result at hgives ⊢
          cases result with
          | error cause =>
              obtain ⟨position, hwhole⟩ := hgives
              simp only [hwhole]
              rfl
          | ok expr? =>
              obtain ⟨position, hwhole⟩ := hgives
              cases expr? with
              | none =>
                  simp only [hwhole]
                  rfl
              | some expr =>
                  simp only [hwhole]
                  split <;> rfl

/-! ## Primary expressions -/

section Primary

variable {context : Context} {opening : List String}
  (hcall : Agrees known call ((Procedure.primary context).need opening.length))
include hcall

theorem dictionary_eq (hrest : rest <:+ tokens) (hlt : rest.length < opening.length) :
    dictionary call tokens (place tokens rest) =
      .ofReading tokens (readDict (readExpr known) rest) := by
  rw [dictionary, getElem?_place hrest]
  by_cases hhead : rest.head? = some "]"
  · obtain ⟨more, rfl⟩ := List.head?_eq_some_iff.mp hhead
    rw [if_pos hhead, place_cons hrest]
    rfl
  · rw [if_neg hhead, readDict_eq_readEntries hhead, hcall.behind hrest hlt]
    rfl

theorem bracketed_eq (hrest : rest <:+ tokens) (hlt : rest.length < opening.length) :
    bracketed call tokens (place tokens rest) =
      .ofReading tokens (readBracketed (readExpr known) rest) := by
  rw [bracketed, getElem?_place hrest]
  by_cases hhead : rest.head? = some "]"
  · obtain ⟨more, rfl⟩ := List.head?_eq_some_iff.mp hhead
    rw [if_pos hhead, place_cons hrest]
    rfl
  · rw [if_neg hhead, hcall.expression_behind hrest hlt]
    have hadvances := readExpr_advances known .value rest
    cases hfirst : readExpr known .value rest with
    | error cause after =>
        rw [readBracketed_of_error hhead hfirst]
        rfl
    | ok first after =>
        rw [hfirst] at hadvances
        have hafter := hadvances.1.trans hrest
        simp only [Outcome.ofReading, Outcome.andThen, getElem?_place hafter]
        cases hcolon : after.head?.any isColon with
        | true =>
            -- the cursor goes back to the first key
            rw [if_pos rfl, readBracketed_eq_dict hhead hfirst hcolon, hcall.behind hrest hlt]
            rfl
        | false =>
            -- no colon: the first expression is the first element
            rw [if_neg Bool.false_ne_true, readBracketed_eq_list hhead hfirst hcolon,
              hcall.behind hafter (Nat.lt_trans hadvances.2 hlt)]
            simp only [Procedure.reader, readItems, hfirst, andThen_ok]
            cases readMore (readExpr known .value) after.length after with
            | error cause behind => rfl
            | ok more behind =>
                simp only [andThen_ok]
                cases readClosing .list behind <;> rfl

end Primary

theorem perform_primary (hrest : rest <:+ tokens) (context : Context)
    (hcall : Agrees known call ((Procedure.primary context).need rest.length)) :
    perform known call tokens (place tokens rest) (.primary context) =
      .ofReading tokens ((Procedure.primary context).reader known rest) := by
  rw [perform, primary, getElem?_place hrest]
  cases rest with
  | nil => rfl
  | cons token more =>
      have hmore := suffix_of_cons hrest
      have hnext : tokens[place tokens (token :: more) + 1]? = more.head? := by
        rw [place_cons hrest, getElem?_place hmore]
      -- a word is one token
      have hword {expr : Expr} : Outcome.ok expr (place tokens (token :: more) + 1) =
          .ofReading tokens (.ok expr more) := by
        rw [place_cons hrest]
        rfl
      simp only [List.head?_cons, hnext, Procedure.reader, readPrimary]
      cases literal? token with
      | some expr => exact hword
      | none =>
          simp only
          split
          next hopens =>
            subst hopens
            exact group_eq hrest hcall
          next =>
            split
            next hmap =>
              rw [Bool.and_eq_true, decide_eq_true_iff] at hmap
              obtain ⟨behind, rfl⟩ := List.head?_eq_some_iff.mp hmap.2
              have hbehind := suffix_of_cons hmore
              -- a map word and its bracket are two tokens
              have hplace : place tokens (token :: "[" :: behind) + 2 = place tokens behind := by
                rw [← place_cons hmore, ← place_cons hrest]
              rw [hplace]
              exact dictionary_eq hcall hbehind (Nat.lt_succ_of_lt (Nat.lt_succ_self _))
            next =>
              split
              · rw [place_cons hrest]
                exact bracketed_eq hcall hmore (Nat.lt_succ_self _)
              · exact hword

/-! ## Runs -/

/-- What any procedure does comes to what its reader reads. -/
theorem perform_eq (hrest : rest <:+ tokens) {procedure : Procedure}
    (hcall : Agrees known call (procedure.need rest.length)) :
    perform known call tokens (place tokens rest) procedure =
      .ofReading tokens (procedure.reader known rest) := by
  cases procedure with
  | chain level context => exact perform_chain hrest level context hcall
  | chainRest level context left => exact perform_chainRest hrest level context left hcall
  | negation context => exact perform_negation hrest context hcall
  | comparison context => exact perform_comparison hrest context hcall
  | signed context => exact perform_signed hrest context hcall
  | indexed context => exact perform_indexed hrest context hcall
  | indices container => exact perform_indices hrest container hcall
  | primary context => exact perform_primary hrest context hcall
  | elements earlier => exact perform_elements hrest earlier hcall
  | entries earlier => exact perform_entries hrest earlier hcall
  | arguments func earlier => exact perform_arguments hrest func earlier hcall

/-- A run that calls may nest deep enough in is never cut off. -/
theorem run_agrees (known : KnownNames) (depth : Nat) : Agrees known (run known depth) depth := by
  induction depth with
  | zero => exact fun _ _ _ _ hneed => absurd hneed (Nat.not_lt_zero _)
  | succ depth ih =>
      -- a call that a run makes is a run with a depth less
      intro tokens procedure rest hrest hneed
      exact perform_eq hrest (ih.mono (Nat.le_of_lt_succ hneed))

theorem run_eq {depth : Nat} (hrest : rest <:+ tokens)
    (hdepth : 10 * (tokens.length + 1) ≤ depth) (procedure : Procedure) :
    run known depth tokens procedure (place tokens rest) =
      .ofReading tokens (procedure.reader known rest) := by
  have hlength := hrest.length_le
  have hrank := rank_le procedure
  refine run_agrees known depth hrest ?_
  unfold Procedure.need
  omega

/-! ## The cursor in range -/

/-- The call has come to an end, inside of so many tokens, and behind its start if it was
successful. -/
def Outcome.EndsIn (outcome : Outcome α) (start length : Nat) : Prop :=
  match outcome with
  | .ok _ position => start < position ∧ position ≤ length
  | .error _ position => start ≤ position ∧ position ≤ length
  | .fault | .unfinished => False

/-- Each of some calls has come to an end inside of so many tokens, and none of them behind the
start of the next one. -/
def GoesForward (length : Nat) : Nat → List (Outcome α) → Prop
  | _, [] => True
  | start, outcome :: more => outcome.EndsIn start length ∧
      ∀ position ∈ outcome.position?, GoesForward length position more

theorem place_drop {position : Nat} (hposition : position ≤ tokens.length) :
    place tokens (tokens.drop position) = position := by
  rw [place, List.length_drop, Nat.sub_sub_self hposition]

theorem endsIn_ofReading {reading : Reading α} (hrest : rest <:+ tokens)
    (hadvances : reading.Advances rest) :
    (Outcome.ofReading tokens reading).EndsIn (place tokens rest) tokens.length := by
  have hlength := hrest.length_le
  cases reading with
  | ok value after =>
      -- fewer tokens are left, so that the cursor is further
      have hlt := hadvances.2
      constructor
      · unfold place
        omega
      · exact Nat.sub_le _ _
  | error cause after =>
      have hle := hadvances.length_le
      constructor
      · unfold place
        omega
      · exact Nat.sub_le _ _

theorem run_expression_eq {depth : Nat} (hrest : rest <:+ tokens)
    (hdepth : 10 * (tokens.length + 1) ≤ depth) (context : Context) :
    run known depth tokens (.expression context) (place tokens rest) =
      .ofReading tokens (readExpr known context rest) := by
  rw [run_eq hrest hdepth, reader_expression]

theorem goesForward_session {depth : Nat} (hdepth : 10 * (tokens.length + 1) ≤ depth)
    (contexts : List Context) (hrest : rest <:+ tokens) :
    (session known depth tokens contexts (place tokens rest)).length = contexts.length ∧
      GoesForward tokens.length (place tokens rest)
        (session known depth tokens contexts (place tokens rest)) := by
  induction contexts generalizing rest with
  | nil => exact ⟨rfl, trivial⟩
  | cons context contexts ih =>
      have hadvances := readExpr_advances known context rest
      have hends := endsIn_ofReading hrest hadvances
      rw [session, run_expression_eq hrest hdepth]
      generalize readExpr known context rest = reading at hadvances hends
      -- also behind an error the cursor is at a final part of the tokens
      have hnext : reading.rest <:+ tokens := hadvances.leaves.trans hrest
      have hposition : (Outcome.ofReading tokens reading).position? =
          some (place tokens reading.rest) := by
        cases reading <;> rfl
      obtain ⟨hlength, hforward⟩ := ih hnext
      simp only [hposition, Option.elim_some, List.length_cons, hlength, true_and]
      refine ⟨hends, fun position hmem => ?_⟩
      rw [hposition, Option.mem_some_iff] at hmem
      rwa [← hmem]

/-- The loop for arguments comes to the last token, or to an error. -/
theorem readArguments_cases (known : KnownNames) (tokens : List String) :
    (∃ args, readArguments (readExpr known) tokens.length tokens = .ok args []) ∨
      ∃ cause after, readArguments (readExpr known) tokens.length tokens = .error cause after ∧
        after <:+ tokens := by
  -- an argument may be any number of tokens, so the induction is on how many are left
  induction hlength : tokens.length using Nat.strongRecOn generalizing tokens with
  | ind length ih =>
      subst hlength
      cases tokens with
      | nil => exact .inl ⟨[], rfl⟩
      | cons token more =>
          have hadvances := readExpr_advances known .value (token :: more)
          rw [readArguments_cons (readExpr_advances known)]
          cases hread : readExpr known .value (token :: more) with
          | error cause after =>
              rw [hread] at hadvances
              exact .inr ⟨cause, after, rfl, hadvances⟩
          | ok first after =>
              rw [hread] at hadvances
              rw [andThen_ok]
              rcases ih after.length hadvances.2 after rfl with
                ⟨args, hargs⟩ | ⟨cause, behind, herror, hbehind⟩
              · exact .inl ⟨first :: args, by rw [hargs]; rfl⟩
              · exact .inr ⟨cause, behind, by rw [herror]; rfl, hbehind.trans hadvances.1⟩

/-- **Reading by a cursor ends.**  Calls never nest deeper than ten times for each token, and ten
times more, so that no run that deep is cut off, and nothing is ever out of range.  From any place
in the tokens on, reading an expression comes to what the reader reads from the tokens there.  The
cursor is behind its start after a success, never in front of it, and never behind the tokens; this
stays so if expressions are read one after the other, also behind errors.  The loop for arguments
comes to the last token or to an error, and reading all tokens comes to the same as without a
cursor. -/
theorem run_ends (known : KnownNames) (tokens : List String) {depth position : Nat}
    (hdepth : 10 * (tokens.length + 1) ≤ depth) (hposition : position ≤ tokens.length) :
    (∀ context,
      run known depth tokens (.expression context) position =
        .ofReading tokens (readExpr known context (tokens.drop position)) ∧
      (run known depth tokens (.expression context) position).EndsIn position tokens.length) ∧
    (∀ contexts, (session known depth tokens contexts position).length = contexts.length ∧
      GoesForward tokens.length position (session known depth tokens contexts position)) ∧
    (∀ func earlier,
      (∃ args, run known depth tokens (.arguments func earlier) position =
        .ok (.call func (earlier ++ args)) tokens.length) ∨
      ∃ cause after, run known depth tokens (.arguments func earlier) position =
        .error cause after ∧ position ≤ after ∧ after ≤ tokens.length) ∧
    ∀ context, (wholeOrNone (run known depth) tokens context).Gives
      (readWhole known context tokens) := by
  have hrest : tokens.drop position <:+ tokens := List.drop_suffix position tokens
  have hplace := place_drop hposition
  refine ⟨fun context => ?_, fun contexts => ?_, fun func earlier => ?_, fun context => ?_⟩
  · have hrun : run known depth tokens (.expression context) _ = _ :=
      run_expression_eq hrest hdepth context
    have hends := endsIn_ofReading hrest (readExpr_advances known context _)
    rw [hplace] at hrun hends
    rw [hrun]
    exact ⟨rfl, hends⟩
  · rw [← hplace]
    -- a session is a run for each of its contexts
    exact goesForward_session hdepth contexts hrest
  · have hrun : run known depth tokens (.arguments func earlier) _ = _ := run_eq hrest hdepth _
    rw [hplace] at hrun
    rw [hrun]
    simp only [Procedure.reader]
    rcases readArguments_cases known (tokens.drop position) with
      ⟨args, hargs⟩ | ⟨cause, after, herror, hafter⟩
    · left
      exact ⟨args, by rw [hargs]; rfl⟩
    · right
      have hadvances : (Reading.error cause after : Reading Expr).Advances _ := hafter
      have hends := endsIn_ofReading hrest hadvances
      rw [hplace] at hends
      exact ⟨cause, place tokens after, by rw [herror]; rfl, hends⟩
  · exact wholeOrNone_gives (run_agrees known depth) context (by omega)

/-- A dictionary whose key is in parentheses and is read twice, a name, and a parenthesis that
nothing closes, at which the cursor stays. -/
theorem run_ends_of_dictionary_and_errors :
    let tokens := ["[", "(", "a", "+", "x", ")", ":", "y", "]", "b", "("]
    let outcomes := session .empty 120 tokens [.value, .name, .name, .value] 0
    let sum := Expr.binary .add (.ident "a") (.ident "x")
    outcomes = [.ok (.dict [(sum, .bare "y")]) 9, .ok (.ident "b") 10,
        .error .unmatchedParenthesis 10, .error .unmatchedParenthesis 10] ∧
      GoesForward 11 0 outcomes := by
  intro tokens outcomes sum
  have hdepth : 10 * (tokens.length + 1) ≤ 120 := by decide
  have hcomes (context : Context) (position : Nat) (hposition : position ≤ tokens.length) :
      run .empty 120 tokens (.expression context) position =
        .ofReading tokens (readExpr .empty context (tokens.drop position)) :=
    ((run_ends .empty tokens hdepth hposition).1 context).1
  have hdict : run .empty 120 tokens (.expression .value) 0 = .ok (.dict [(sum, .bare "y")]) 9 :=
    (hcomes .value 0 (by decide)).trans (by rfl)
  have hname : run .empty 120 tokens (.expression .name) 9 = .ok (.ident "b") 10 :=
    (hcomes .name 9 (by decide)).trans (by rfl)
  have hopening (context : Context) :
      run .empty 120 tokens (.expression context) 10 = .error .unmatchedParenthesis 10 :=
    (hcomes context 10 (by decide)).trans (by cases context <;> rfl)
  constructor
  · simp only [outcomes, session, hdict, hname, hopening, Outcome.position?, Option.elim_some]
  · exact ((run_ends .empty tokens hdepth (Nat.zero_le 11)).2.1 _).2

end Cursor

end LineScript
