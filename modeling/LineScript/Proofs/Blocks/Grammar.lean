import LineScript.Proofs.Blocks.Levels

/-!
# The grammar of blocks

The reader follows the blocks of a program with a stack.  What it accepts can be said without one.
A *unit* is what one statement with branches takes up: its first branch, any number of further
branches, each of which follows the one before it, and a terminator, with units inside of every
branch.  A named block is a unit of a single branch.

The grammar depends on its context.  A branch that follows the current one goes on with its
statement, and every other one opens a statement inside of it, so that a unit under a current
branch must not begin with a branch that follows it.  `Nests` therefore carries the current branch.

Main statements: some events leave some blocks open exactly if they fall into units and branches
accordingly (`foldl_afterEvent_eq_iff`), and in balanced events no terminator meets an empty stack
(`Nests.strayless`).

## Strategy

* **From the grammar to the stack** (`Nests.foldl_afterEvent`) goes by induction on the derivation.
  A complete unit leaves the stack as it was, an incomplete one leaves its last branch on top of it.
  That no terminator is stray is proved in the same induction, since both need the stack in front of
  each part.
* **From the stack to the grammar** goes along the events, not along the grammar: `LeavesOpen` says
  what a prefix of the events has left incomplete, a unit without its terminator for every open
  block.  It is an invariant of single events: each of them changes the branches that are open in
  the grammar the way it changes the stack (`LeavesOpen.afterEvent`).  A terminator at an empty
  stack is stray and is kept apart in `Outermost`, so that the invariant needs no hypothesis.

The grammar is thereby decided by running the stack, and `blocksBalance_iff` splits balance into the
two things that the reader remarks on.
-/

namespace LineScript

/-! ## The grammar -/

/-- Whether a branch goes on with the statement of the current branch.  Nothing goes on with a named
block, or with no branch at all. -/
def goesOnFrom (current branch : Option ActionWord) : Bool :=
  current.any fun previous => branch.any (·.follows previous)

/-- The parts of a balanced sequence of events. -/
inductive BlockPart where
  /-- Units, one after the other, in a body whose branch is `current`. -/
  | units (current : Option ActionWord)
  /-- A unit without its terminator, in a body whose branch is `current`; its own last branch is
  `last`. -/
  | unit (current last : Option ActionWord)

/-- The events are a part of a balanced sequence. -/
inductive Nests : BlockPart → List BlockEvent → Prop
  | nil {current : Option ActionWord} : Nests (.units current) []
  | append {current last : Option ActionWord} {front unit : List BlockEvent}
      (hfront : Nests (.units current) front) (hunit : Nests (.unit current last) unit) :
      Nests (.units current) (front ++ (unit ++ [.closes]))
  /-- A branch that does not go on with the current one opens a unit. -/
  | first {current branch : Option ActionWord} {body : List BlockEvent}
      (hopens : goesOnFrom current branch = false) (hbody : Nests (.units branch) body) :
      Nests (.unit current branch) (.opens branch :: body)
  /-- A branch that goes on with the last one takes its place. -/
  | next {current last branch : Option ActionWord} {before body : List BlockEvent}
      (hbefore : Nests (.unit current last) before) (hgoesOn : goesOnFrom last branch = true)
      (hbody : Nests (.units branch) body) :
      Nests (.unit current branch) (before ++ .opens branch :: body)

/-- The events are balanced under no branch. -/
abbrev BlocksBalance (events : List BlockEvent) : Prop := Nests (.units none) events

/-- No block is open after the events: they are balanced but for terminators that close nothing. -/
inductive Outermost : List BlockEvent → Prop
  | balanced {events : List BlockEvent} (hevents : BlocksBalance events) : Outermost events
  | stray {front back : List BlockEvent} (hfront : Outermost front) (hback : BlocksBalance back) :
      Outermost (front ++ .closes :: back)

namespace Nests

variable {current last : Option ActionWord} {front back : List BlockEvent}

theorem units_append (hfront : Nests (.units current) front) (hback : Nests (.units current) back) :
    Nests (.units current) (front ++ back) := by
  generalize hpart : BlockPart.units current = part at hback
  induction hback with
  | nil =>
      cases hpart
      rwa [List.append_nil]
  | append hmore hunit ihMore ihUnit =>
      cases hpart
      rw [← List.append_assoc]
      exact (ihMore rfl).append hunit
  | first | next => cases hpart

/-- Units behind the last branch belong to it. -/
theorem unit_append (hunit : Nests (.unit current last) front) (hback : Nests (.units last) back) :
    Nests (.unit current last) (front ++ back) := by
  cases hunit with
  | first hopens hbody => exact .first hopens (hbody.units_append hback)
  | next hbefore hgoesOn hbody =>
      rw [List.append_assoc]
      exact .next hbefore hgoesOn (hbody.units_append hback)

end Nests

theorem Outermost.append {front back : List BlockEvent} (hfront : Outermost front)
    (hback : BlocksBalance back) : Outermost (front ++ back) := by
  cases hfront with
  | balanced hevents => exact .balanced (hevents.units_append hback)
  | stray hfront hmiddle =>
      rw [List.append_assoc]
      exact .stray hfront (hmiddle.units_append hback)

/-! ## The stack -/

namespace OpenBlocks

/-- The open blocks after an event. -/
def afterEvent (blocks : OpenBlocks) : BlockEvent → OpenBlocks
  | .opens branch => blocks.opened branch
  | .closes => blocks.tail

/-- The branch of the innermost open block. -/
def current : OpenBlocks → Option ActionWord
  | [] => none
  | branch :: _ => branch

theorem opened_of_goesOnFrom (blocks : OpenBlocks) {branch : Option ActionWord}
    (hgoesOn : goesOnFrom blocks.current branch = true) :
    ∃ last outer, blocks = last :: outer ∧ blocks.opened branch = branch :: outer := by
  match blocks, hgoesOn with
  | some previous :: outer, hfollows => exact ⟨_, _, rfl, if_pos hfollows⟩

theorem opened_of_not_goesOnFrom {blocks : OpenBlocks} {branch : Option ActionWord}
    (hopens : goesOnFrom blocks.current branch = false) :
    blocks.opened branch = branch :: blocks := by
  match blocks with
  | [] => rfl
  | none :: outer => rfl
  | some previous :: outer => exact if_neg (Bool.eq_false_iff.mp hopens)

/-- No terminator among the events comes where no block is open. -/
def Strayless (blocks : OpenBlocks) : List BlockEvent → Prop
  | [] => True
  | event :: rest => (event = .closes → blocks ≠ []) ∧ (blocks.afterEvent event).Strayless rest

theorem strayless_append (blocks : OpenBlocks) (front back : List BlockEvent) :
    blocks.Strayless (front ++ back) ↔
      blocks.Strayless front ∧ (front.foldl afterEvent blocks).Strayless back := by
  induction front generalizing blocks with
  | nil => simp [Strayless]
  | cons event rest ih => simp [Strayless, ih, and_assoc]

end OpenBlocks

open OpenBlocks (afterEvent)

/-! ## From the grammar to the stack -/

/-- What a part of a balanced sequence does to the open blocks. -/
def BlockPart.blocksAfter (blocks : OpenBlocks) : BlockPart → OpenBlocks
  | .units _ => blocks
  | .unit _ last => last :: blocks

/-- The branch under which a part stands. -/
def BlockPart.current : BlockPart → Option ActionWord
  | .units current => current
  | .unit current _ => current

/-- A part of a balanced sequence leaves the blocks around it alone. -/
theorem Nests.foldl_afterEvent {part : BlockPart} {events : List BlockEvent}
    (hnests : Nests part events) (blocks : OpenBlocks) (hcurrent : blocks.current = part.current) :
    events.foldl afterEvent blocks = part.blocksAfter blocks ∧ blocks.Strayless events := by
  induction hnests generalizing blocks with
  | nil => exact ⟨rfl, trivial⟩
  | append hfront hunit ihFront ihUnit =>
      -- the front leaves the stack as it was, and the unit runs from there
      obtain ⟨hfrontAfter, hfrontStrays⟩ := ihFront blocks hcurrent
      obtain ⟨hunitAfter, hunitStrays⟩ := ihUnit blocks hcurrent
      simp only [BlockPart.blocksAfter] at hfrontAfter hunitAfter
      refine ⟨?_, ?_⟩
      · rw [List.foldl_append, List.foldl_append, hfrontAfter, hunitAfter]
        rfl
      · rw [OpenBlocks.strayless_append, OpenBlocks.strayless_append, hfrontAfter, hunitAfter]
        exact ⟨hfrontStrays, hunitStrays, fun _ => List.cons_ne_nil _ _, trivial⟩
  | @first current branch body hopens hbody ih =>
      -- the branch does not follow the current one, and is pushed
      have hopened : blocks.afterEvent (.opens branch) = branch :: blocks :=
        OpenBlocks.opened_of_not_goesOnFrom (hcurrent ▸ hopens)
      obtain ⟨hafter, hstrays⟩ := ih (branch :: blocks) rfl
      refine ⟨?_, nofun, hopened ▸ hstrays⟩
      rw [List.foldl_cons, hopened, hafter]
      rfl
  | @next current last branch before body hbefore hgoesOn hbody ihBefore ihBody =>
      obtain ⟨hbeforeAfter, hbeforeStrays⟩ := ihBefore blocks hcurrent
      simp only [BlockPart.blocksAfter] at hbeforeAfter
      -- the branch follows the last one, and replaces it on the stack
      have hopened : OpenBlocks.afterEvent (last :: blocks) (.opens branch) = branch :: blocks := by
        obtain ⟨_, _, heq, hopened⟩ :=
          OpenBlocks.opened_of_goesOnFrom (last :: blocks) hgoesOn
        cases heq
        exact hopened
      obtain ⟨hafter, hstrays⟩ := ihBody (branch :: blocks) rfl
      refine ⟨?_, ?_⟩
      · rw [List.foldl_append, hbeforeAfter, List.foldl_cons, hopened, hafter]
        rfl
      · rw [OpenBlocks.strayless_append, hbeforeAfter]
        exact ⟨hbeforeStrays, nofun, hopened ▸ hstrays⟩

/-- In balanced events no terminator meets an empty stack. -/
theorem Nests.strayless {events : List BlockEvent} (hbalance : BlocksBalance events) :
    OpenBlocks.Strayless [] events :=
  (hbalance.foldl_afterEvent _ rfl).2

theorem Outermost.foldl_afterEvent {events : List BlockEvent} (houtermost : Outermost events) :
    events.foldl afterEvent [] = [] := by
  induction houtermost with
  | balanced hevents => exact (hevents.foldl_afterEvent _ rfl).1
  | stray hfront hback ih =>
      rw [List.foldl_append, ih]
      exact (hback.foldl_afterEvent _ rfl).1

/-! ## From the stack to the grammar -/

/-- The events leave blocks open: behind events that leave none open, a unit without its terminator
for each of them, the innermost one last. -/
inductive LeavesOpen : OpenBlocks → List BlockEvent → Prop
  | outermost {events : List BlockEvent} (hevents : Outermost events) : LeavesOpen [] events
  | inside {outer : OpenBlocks} {last : Option ActionWord} {front unit : List BlockEvent}
      (hfront : LeavesOpen outer front) (hunit : Nests (.unit outer.current last) unit) :
      LeavesOpen (last :: outer) (front ++ unit)

namespace LeavesOpen

variable {blocks : OpenBlocks} {events : List BlockEvent}

/-- Units at the end belong to the innermost open block. -/
theorem append {back : List BlockEvent} (hopen : LeavesOpen blocks events)
    (hback : Nests (.units blocks.current) back) : LeavesOpen blocks (events ++ back) := by
  cases hopen with
  | outermost hevents => exact .outermost (hevents.append hback)
  | inside hfront hunit =>
      rw [List.append_assoc]
      exact .inside hfront (hunit.unit_append hback)

theorem opens (hopen : LeavesOpen blocks events) (branch : Option ActionWord) :
    LeavesOpen (blocks.opened branch) (events ++ [.opens branch]) := by
  cases hgoesOn : goesOnFrom blocks.current branch with
  | false =>
      rw [OpenBlocks.opened_of_not_goesOnFrom hgoesOn]
      -- a unit begins, so far with an empty body
      exact .inside hopen (.first hgoesOn .nil)
  | true =>
      obtain ⟨last, outer, rfl, hopened⟩ := OpenBlocks.opened_of_goesOnFrom _ hgoesOn
      -- the unit of the innermost block goes on with one more branch
      rw [hopened]
      cases hopen with
      | inside hfront hunit =>
          rw [List.append_assoc]
          exact .inside hfront (.next hunit hgoesOn .nil)

theorem closes (hopen : LeavesOpen blocks events) :
    LeavesOpen blocks.tail (events ++ [.closes]) := by
  cases hopen with
  | outermost hevents => exact .outermost (.stray hevents .nil)
  | inside hfront hunit =>
      -- the unit is complete, and belongs to what is open around it
      rw [List.append_assoc]
      exact hfront.append (.append .nil hunit)

/-- **The invariant.**  What is open in the grammar changes with an event as the stack does. -/
theorem afterEvent (hopen : LeavesOpen blocks events) (event : BlockEvent) :
    LeavesOpen (blocks.afterEvent event) (events ++ [event]) := by
  cases event with
  | opens branch => exact hopen.opens branch
  | closes => exact hopen.closes

theorem foldl_afterEvent (hopen : LeavesOpen blocks events) :
    events.foldl OpenBlocks.afterEvent [] = blocks := by
  induction hopen with
  | outermost hevents => exact hevents.foldl_afterEvent
  | inside hfront hunit ih =>
      rw [List.foldl_append, ih]
      exact (hunit.foldl_afterEvent _ rfl).1

end LeavesOpen

theorem leavesOpen_foldl (events : List BlockEvent) :
    LeavesOpen (events.foldl afterEvent []) events := by
  -- from the end: the invariant is about the last event
  induction events using List.reverseRecOn with
  | nil => exact .outermost (.balanced .nil)
  | append_singleton events event ih =>
      rw [List.foldl_append]
      exact ih.afterEvent event

/-- **The stack is the grammar.**  The blocks that are open after events are those that the grammar
leaves open. -/
theorem foldl_afterEvent_eq_iff {events : List BlockEvent} {blocks : OpenBlocks} :
    events.foldl afterEvent [] = blocks ↔ LeavesOpen blocks events :=
  ⟨fun heq => heq ▸ leavesOpen_foldl events, LeavesOpen.foldl_afterEvent⟩

theorem outermost_iff {events : List BlockEvent} :
    Outermost events ↔ events.foldl afterEvent [] = [] := by
  refine ⟨Outermost.foldl_afterEvent, fun heq => ?_⟩
  cases foldl_afterEvent_eq_iff.mp heq with
  | outermost hevents => exact hevents

instance (events : List BlockEvent) : Decidable (Outermost events) :=
  decidable_of_iff _ outermost_iff.symm

/-- Events are balanced exactly if they leave no block open and no terminator among them closes
nothing. -/
theorem blocksBalance_iff {events : List BlockEvent} :
    BlocksBalance events ↔ Outermost events ∧
      ∀ front back, events = front ++ .closes :: back → ¬ Outermost front := by
  constructor
  · intro hbalance
    refine ⟨.balanced hbalance, ?_⟩
    rintro front back rfl houtermost
    -- an outermost front leaves the stack empty for the terminator
    obtain ⟨-, hmeets, -⟩ := (OpenBlocks.strayless_append [] front _).mp hbalance.strayless
    exact hmeets rfl houtermost.foldl_afterEvent
  · rintro ⟨houtermost, hstrays⟩
    cases houtermost with
    | balanced hevents => exact hevents
    | stray hfront hback => exact absurd hfront (hstrays _ _ rfl)

end LineScript
