import LineScript.Proofs.Program.Parsed

/-!
# The forms of lines

A line is a statement in one of five ways: as the end of a block, as an arrow, as a header of one
word that names a branch, as a header of one word that names a block, or as an action with its
arguments.  `LineToken.Reads` has one rule for each of them and says all that the line has to
satisfy.

Main statement: these rules are exactly how lines are read (`readStatement_eq_ok_iff`).

The rules are in the order in which the reader tries them, and each of them says that those before
it do not apply.  So a proof about lines is a case analysis with five cases, each with all that is
known there, and no proof but the one here follows the reader through its tests.
-/

namespace LineScript

/-- A line is read as a statement, in one of the forms that lines have. -/
inductive LineToken.Reads (known : KnownNames) (token : LineToken) : Statement → Prop where
  | blockEnd (hend : isBlockEnd token.action = true) :
      Reads known token (.blockEnd token.state token.pictograph)
  | arrow {edge : Arrow} (hend : isBlockEnd token.action = false)
      (hedge : readArrow? token = .ok (some edge)) : Reads known token (.arrow edge)
  | branch {name : String} {action : Action} (hend : isBlockEnd token.action = false)
      (hargs : token.args = []) (hname : withoutColon? token.action = some name)
      (hword : ActionWord.ofHeader? name = some action.word) :
      Reads known token (token.statement action)
  | namedBlock {name : String} (hend : isBlockEnd token.action = false)
      (hargs : token.args = []) (hname : withoutColon? token.action = some name)
      (hword : ActionWord.ofHeader? name = none) (hne : name ≠ "") :
      Reads known token (.block name token.state)
  | action {word : ActionWord} {action : Action} (hend : isBlockEnd token.action = false)
      (hedge : readArrow? token = .ok none) (hheader : token.headerName? = none)
      (hword : ActionWord.ofSpelling? token.action = some word)
      (haction : readAction known word token.args = .ok action) :
      Reads known token (token.statement action)

variable {known : KnownNames} {token : LineToken}

namespace ActionWord

variable {name : String} {word : ActionWord}

theorem ofSpelling?_of_ofHeader? (hheader : ofHeader? name = some word) :
    ofSpelling? name = some word := by
  unfold ofHeader? at hheader
  split at hheader
  all_goals cases hheader
  all_goals assumption

/-- No action word ends with a colon. -/
theorem withoutColon?_of_ofSpelling? (hword : ofSpelling? name = some word) :
    withoutColon? name = none := by
  unfold ofSpelling? at hword
  split at hword
  case h_45 => cases hword
  all_goals rfl

end ActionWord

/-- Three branches have headers of one word. -/
theorem ActionWord.eq_of_ofHeader? {name : String} {word : ActionWord}
    (hword : ofHeader? name = some word) :
    word = .elseBranch ∨ word = .tryBlock ∨ word = .finallyBlock := by
  unfold ofHeader? at hword
  split at hword
  · exact .inl (Option.some.inj hword).symm
  · exact .inr (.inl (Option.some.inj hword).symm)
  · exact .inr (.inr (Option.some.inj hword).symm)
  · cases hword

/-- A header of one word is the action of a branch, and without one it names a block. -/
theorem readHeader_eq_ok_iff {name : String} {statement : Statement} :
    readHeader token name = .ok statement ↔
      (∃ action : Action, ActionWord.ofHeader? name = some action.word ∧
        statement = token.statement action) ∨
      ActionWord.ofHeader? name = none ∧ name ≠ "" ∧ statement = .block name token.state := by
  unfold readHeader
  cases hname : ActionWord.ofHeader? name with
  | none =>
      by_cases hempty : name = ""
      · simp [hempty]
      · simp [hempty, eq_comm (a := statement)]
  | some word =>
      -- the word determines the action, since these branches have no arguments
      have haction (action : Action) : some word = some action.word ↔
          (word = .elseBranch ∧ action = .elseBranch) ∨ (word = .tryBlock ∧ action = .tryBlock) ∨
            (word = .finallyBlock ∧ action = .finallyBlock) := by
        obtain rfl | rfl | rfl := ActionWord.eq_of_ofHeader? hname
        all_goals cases action <;> simp [Action.word]
      simp only [haction, reduceCtorEq, false_and, or_false]
      obtain rfl | rfl | rfl := ActionWord.eq_of_ofHeader? hname
      all_goals simp [eq_comm (a := statement)]

theorem LineToken.headerName?_eq_some_iff {name : String} :
    token.headerName? = some name ↔ token.args = [] ∧ withoutColon? token.action = some name := by
  unfold headerName?
  cases token.args <;> simp

/-- **The forms of lines.**  A line is read as a statement exactly if one of the forms says so. -/
theorem readStatement_eq_ok_iff {statement : Statement} :
    readStatement known token = .ok statement ↔ token.Reads known statement := by
  constructor
  · intro hread
    unfold readStatement at hread
    split at hread
    next hend =>
      cases hread
      exact .blockEnd hend
    next hend =>
      have hend : isBlockEnd token.action = false := Bool.eq_false_iff.mpr hend
      obtain ⟨edge?, hedge, hread⟩ := bind_eq_ok_iff.mp hread
      cases edge? with
      | some edge =>
          cases hread
          exact .arrow hend hedge
      | none =>
          simp only at hread
          split at hread
          next name hheader =>
            obtain ⟨hargs, hname⟩ := LineToken.headerName?_eq_some_iff.mp hheader
            obtain ⟨action, hword, rfl⟩ | ⟨hword, hne, rfl⟩ := readHeader_eq_ok_iff.mp hread
            · exact .branch hend hargs hname hword
            · exact .namedBlock hend hargs hname hword hne
          next hheader =>
            split at hread
            · cases hread
            next word hword =>
              obtain ⟨action, haction, hread⟩ := bind_eq_ok_iff.mp hread
              cases hread
              exact .action hend hedge hheader hword haction
  · intro hreads
    -- without arguments there is no word for an arrow to be
    have hnoArrow (hargs : token.args = []) : readArrow? token = .ok none := by
      simp [readArrow?, hargs]
    unfold readStatement
    cases hreads with
    | blockEnd hend => rw [if_pos hend]
    | arrow hend hedge => rw [if_neg (by simp [hend]), hedge]; rfl
    | branch hend hargs hname hword =>
        have hheader := LineToken.headerName?_eq_some_iff.mpr ⟨hargs, hname⟩
        rw [if_neg (by simp [hend]), hnoArrow hargs]
        simpa [bind, Except.bind, hheader] using readHeader_eq_ok_iff.mpr (.inl ⟨_, hword, rfl⟩)
    | namedBlock hend hargs hname hword hne =>
        have hheader := LineToken.headerName?_eq_some_iff.mpr ⟨hargs, hname⟩
        rw [if_neg (by simp [hend]), hnoArrow hargs]
        simpa [bind, Except.bind, hheader] using
          readHeader_eq_ok_iff.mpr (.inr ⟨hword, hne, rfl⟩)
    | action hend hedge hheader hword haction =>
        rw [if_neg (by simp [hend]), hedge]
        simp [bind, Except.bind, hheader, hword, haction, pure, Except.pure]

end LineScript
