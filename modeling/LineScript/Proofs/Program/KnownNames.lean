import LineScript.Proofs.Program.Parsed
import Mathlib.Data.List.Nodup
import Mathlib.Data.List.Perm.Basic

/-!
# Names flow forward

A program is read line by line, and the only thing that a line gets from the lines before it is
the set of names that they declare.  Which names these are is said here once more, as a relation
between statements and names (`Statement.Declares`): targets and containers of assignments,
variables of loops, names and parameters of definitions, and named blocks.  A set of known names is
its members and nothing else (`WordSet.ext_contains`), so that there is exactly one set for some
statements (`existsUnique_of`).

Main statement: a program is read as some statements exactly if each of its lines, read alone with
the names of the statements before it, is the statement in its place
(`readProgram_iff_each_line`).  Blocks, segments and remarks do not occur in it.

## Strategy

The reader carries its names along, so the induction on the lines is for any names known at first
(`readLines_eq_ok_iff`): behind the first line they are those at first and those that it declares.
The statement itself starts from no names, and allows any set that has the right members.  There is
only one (`KnownNames.Of.eq_namesAfter`), since a set is kept as a list in strict order, and two
such lists with the same members are equal.

A program keeps its statements in flows and segments.  That cutting them loses nothing and keeps
their order is `statements_programOf`.
-/

namespace LineScript

/-! ## Sets of words -/

namespace WordSet

theorem contains_iff_mem {set : WordSet} {word : String} :
    set.contains word = true ↔ (word, ()) ∈ set.entries := by
  simp only [WordMap.contains, WordMap.get?, List.lookup_isSome_iff, beq_iff_eq]
  refine ⟨?_, fun hmem => ⟨_, hmem, rfl⟩⟩
  rintro ⟨entry, hmem, rfl⟩
  exact hmem

/-- Sets with the same words are equal. -/
theorem ext_contains {set set' : WordSet}
    (hcontains : ∀ word, set.contains word = true ↔ set'.contains word = true) : set = set' := by
  -- entries are in strict order, hence without repetition
  have hnodup (set : WordSet) : set.entries.Nodup := by
    refine set.ordered.imp ?_
    rintro left right hlt rfl
    exact String.lt_irrefl _ hlt
  have hperm : set.entries.Perm set'.entries := by
    refine (List.perm_ext_iff_of_nodup (hnodup set) (hnodup set')).mpr fun entry => ?_
    obtain ⟨word, ⟨⟩⟩ := entry
    rw [← contains_iff_mem, ← contains_iff_mem, hcontains word]
  -- two orders of the same entries
  have hentries : set.entries = set'.entries :=
    hperm.eq_of_pairwise (fun _ _ _ _ hlt hgt => absurd hgt (String.lt_asymm hlt))
      set.ordered set'.ordered
  cases set
  cases set'
  congr

end WordSet

namespace KnownNames

theorem contains_declare (known : KnownNames) (name other : String) :
    (known.declare name).contains other = true ↔
      known.contains other = true ∨ other ≠ "" ∧ other = name := by
  unfold declare
  split
  next hempty =>
    obtain rfl : name = "" := String.isEmpty_iff.mp hempty
    simp
  next hname =>
    have hne : name ≠ "" := fun heq => hname (String.isEmpty_iff.mpr heq)
    rw [WordSet.contains_add, Bool.or_eq_true, decide_eq_true_eq, or_comm]
    exact or_congr_right ⟨fun heq => ⟨heq ▸ hne, heq⟩, And.right⟩

theorem contains_declareAll (known : KnownNames) (names : List String) (other : String) :
    (known.declareAll names).contains other = true ↔
      known.contains other = true ∨ other ≠ "" ∧ other ∈ names := by
  induction names generalizing known with
  | nil => simp [declareAll]
  | cons name rest ih =>
      rw [declareAll, List.foldl_cons, ← declareAll, ih, contains_declare, or_assoc, ← and_or_left,
        List.mem_cons]

theorem declareAll_append (known : KnownNames) (front back : List String) :
    known.declareAll (front ++ back) = (known.declareAll front).declareAll back :=
  List.foldl_append

end KnownNames

/-! ## Declarations -/

/-- A statement makes a name a variable. -/
inductive Statement.Declares : Statement → String → Prop where
  | target {content : Line} {name : String} {value : Expr}
      (haction : content.action = .set name value) : Declares (.line content) name
  | container {content : Line} {name : String} {index value : Expr}
      (haction : content.action = .indexSet name index value) : Declares (.line content) name
  | loopVariable {content : Line} {name : String} {iterable : Expr}
      (haction : content.action = .forLoop name iterable) : Declares (.line content) name
  | definition {content : Line} {name : String} {params : List String}
      (haction : content.action = .define name params) : Declares (.line content) name
  | parameter {content : Line} {func name : String} {params : List String}
      (haction : content.action = .define func params) (hmem : name ∈ params) :
      Declares (.line content) name
  | namedBlock {name : String} {state : LineState} : Declares (.block name state) name

theorem Statement.mem_declares_iff {statement : Statement} {name : String} :
    name ∈ statement.declares ↔ statement.Declares name := by
  refine ⟨fun hmem => ?_, fun hdeclares => ?_⟩
  · cases statement with
    | line content =>
        rw [declares] at hmem
        -- four forms of actions declare names
        cases haction : content.action with
        | set target value =>
            rw [haction, Action.declares, List.mem_singleton] at hmem
            exact hmem ▸ .target haction
        | indexSet container index value =>
            rw [haction, Action.declares, List.mem_singleton] at hmem
            exact hmem ▸ .container haction
        | forLoop var iterable =>
            rw [haction, Action.declares, List.mem_singleton] at hmem
            exact hmem ▸ .loopVariable haction
        | define func params =>
            rw [haction, Action.declares, List.mem_cons] at hmem
            rcases hmem with rfl | hparam
            · exact .definition haction
            · exact .parameter haction hparam
        | _ =>
            rw [haction] at hmem
            cases hmem
    | block blockName state =>
        rw [declares, List.mem_singleton] at hmem
        exact hmem ▸ .namedBlock
    | blockEnd state pictograph => cases hmem
    | arrow edge => cases hmem
  · cases hdeclares with
    | target haction | container haction | loopVariable haction | definition haction =>
        simp [declares, haction, Action.declares]
    | parameter haction hmem => simp [declares, haction, Action.declares, hmem]
    | namedBlock => simp [declares]

/-- The known names are the names that statements declare, without an empty one, and no others. -/
def KnownNames.Of (known : KnownNames) (statements : List Statement) : Prop :=
  ∀ name, known.contains name = true ↔
    name ≠ "" ∧ ∃ statement ∈ statements, statement.Declares name

/-- The names that are variables after statements. -/
def namesAfter (statements : List Statement) : KnownNames :=
  KnownNames.declareAll .empty (statements.flatMap Statement.declares)

theorem of_namesAfter (statements : List Statement) : (namesAfter statements).Of statements := by
  intro name
  simp only [namesAfter, KnownNames.contains_declareAll, List.mem_flatMap,
    Statement.mem_declares_iff]
  simp [WordMap.contains]

theorem KnownNames.Of.eq_namesAfter {known : KnownNames} {statements : List Statement}
    (hof : known.Of statements) : known = namesAfter statements :=
  WordSet.ext_contains fun name => (hof name).trans (of_namesAfter statements name).symm

/-- Statements determine the names that are known after them. -/
theorem KnownNames.existsUnique_of (statements : List Statement) :
    ∃! known : KnownNames, known.Of statements :=
  ⟨namesAfter statements, of_namesAfter statements, fun _ hof => hof.eq_namesAfter⟩

/-! ## Reading line by line -/

/-- The first line is read with the names known so far, and what it declares is known to the lines
behind it. -/
theorem readLines_cons_eq_ok_iff {known : KnownNames} {token : LineToken} {rest : List LineToken}
    {lines : List (LineToken × Statement)} :
    readLines known (token :: rest) = .ok lines ↔
      ∃ statement more, readStatement known token = .ok statement ∧
        readLines (known.declareAll statement.declares) rest = .ok more ∧
        lines = (token, statement) :: more := by
  rw [readLines]
  cases readStatement known token with
  | error cause => simp
  | ok statement =>
      rw [bind_eq_ok_iff]
      simp [pure, Except.pure, eq_comm]

/-- Lines are read as statements exactly if each of them is, with the names that are known before
all of them and those that the statements in front of it declare. -/
theorem readLines_eq_ok_iff {known : KnownNames} {tokens : List LineToken}
    {lines : List (LineToken × Statement)} :
    readLines known tokens = .ok lines ↔
      lines.map Prod.fst = tokens ∧
        ∀ i token statement, lines[i]? = some (token, statement) →
          readStatement
            (known.declareAll (((lines.take i).map Prod.snd).flatMap Statement.declares)) token =
            .ok statement := by
  induction tokens generalizing known lines with
  | nil =>
      rw [readLines, Except.ok.injEq, List.map_eq_nil_iff]
      refine ⟨fun h => ⟨h.symm, ?_⟩, fun h => h.1.symm⟩
      subst h
      simp
  | cons token rest ih =>
      rw [readLines_cons_eq_ok_iff]
      constructor
      · rintro ⟨statement, more, hstatement, hmore, rfl⟩
        -- the rest is read with the names known at first and those that the first line declares
        obtain ⟨htokens, heach⟩ := ih.mp hmore
        refine ⟨by rw [List.map_cons, htokens], fun i other otherStatement hget => ?_⟩
        cases i with
        | zero =>
            cases hget
            exact hstatement
        | succ i =>
            have hrest := heach i other otherStatement hget
            rw [← KnownNames.declareAll_append] at hrest
            simpa using hrest
      · rintro ⟨htokens, heach⟩
        cases lines with
        | nil => cases htokens
        | cons line more =>
            obtain ⟨other, statement⟩ := line
            obtain ⟨rfl, hrest⟩ := List.cons.inj htokens
            refine ⟨statement, more, heach 0 _ _ rfl, ih.mpr ⟨hrest, ?_⟩, rfl⟩
            intro i other otherStatement hget
            -- the line behind the first one, counted from the first one
            have hnext := heach (i + 1) other otherStatement hget
            rw [← KnownNames.declareAll_append]
            simpa using hnext

/-- Lines behind other lines are read with the names that those declare. -/
theorem readLines_append_eq_ok_iff {known : KnownNames} {front back : List LineToken}
    {lines : List (LineToken × Statement)} :
    readLines known (front ++ back) = .ok lines ↔
      ∃ first second, readLines known front = .ok first ∧
        readLines (known.declareAll ((first.map Prod.snd).flatMap Statement.declares)) back =
          .ok second ∧
        lines = first ++ second := by
  induction front generalizing known lines with
  | nil => simp [readLines, KnownNames.declareAll]
  | cons token rest ih =>
      rw [List.cons_append, readLines_cons_eq_ok_iff]
      constructor
      · rintro ⟨statement, more, hstatement, hmore, rfl⟩
        obtain ⟨first, second, hfirst, hsecond, rfl⟩ := ih.mp hmore
        refine ⟨(token, statement) :: first, second,
          readLines_cons_eq_ok_iff.mpr ⟨statement, first, hstatement, hfirst, rfl⟩, ?_, rfl⟩
        -- names are added line by line, or all at once
        rw [List.map_cons, List.flatMap_cons, KnownNames.declareAll_append]
        exact hsecond
      · rintro ⟨first, second, hfirst, hsecond, rfl⟩
        obtain ⟨statement, more, hstatement, hmore, rfl⟩ := readLines_cons_eq_ok_iff.mp hfirst
        rw [List.map_cons, List.flatMap_cons, KnownNames.declareAll_append] at hsecond
        exact ⟨statement, more ++ second, hstatement,
          ih.mpr ⟨more, second, hmore, hsecond, rfl⟩, rfl⟩

theorem getElem?_of_tokens_of_statements {lines : List (LineToken × Statement)} {i : Nat}
    {token : LineToken} {statement : Statement} (htoken : (lines.map Prod.fst)[i]? = some token)
    (hstatement : (lines.map Prod.snd)[i]? = some statement) :
    lines[i]? = some (token, statement) := by
  simp only [List.getElem?_map, Option.map_eq_some_iff] at htoken hstatement
  obtain ⟨line, hget, rfl⟩ := htoken
  obtain ⟨line', hget', rfl⟩ := hstatement
  rw [hget, Option.some.injEq] at hget'
  rw [hget, ← hget']

/-- **Only declared names flow forward.**  Tokens are read as a program with certain statements
exactly if there is one statement for each token, and each of them is what the token alone is read
as when the known names are those that the statements before it declare. -/
theorem readProgram_iff_each_line (tokens : List LineToken) (diagnostics : List Diagnostic)
    (statements : List Statement) :
    (∃ parsed, readProgram tokens diagnostics = .ok parsed ∧
        parsed.program.statements = statements) ↔
      statements.length = tokens.length ∧
        ∀ i token statement, tokens[i]? = some token → statements[i]? = some statement →
          ∃ known : KnownNames, known.Of (statements.take i) ∧
            readStatement known token = .ok statement := by
  constructor
  · rintro ⟨parsed, hread, rfl⟩
    obtain ⟨lines, hlines, rfl⟩ := readProgram_eq_ok_iff.mp hread
    obtain ⟨rfl, heach⟩ := readLines_eq_ok_iff.mp hlines
    rw [statements_programOf]
    refine ⟨by rw [List.length_map, List.length_map], fun i token statement htoken hstatement => ?_⟩
    have hline := getElem?_of_tokens_of_statements htoken hstatement
    refine ⟨namesAfter ((lines.map Prod.snd).take i), of_namesAfter _, ?_⟩
    rw [← List.map_take]
    exact heach i token statement hline
  · rintro ⟨hlength, heach⟩
    have hfst : (tokens.zip statements).map Prod.fst = tokens :=
      List.map_fst_zip (Nat.le_of_eq hlength.symm)
    have hsnd : (tokens.zip statements).map Prod.snd = statements :=
      List.map_snd_zip (Nat.le_of_eq hlength)
    -- each line is read with the names that are really known there
    have hread : readLines .empty tokens = .ok (tokens.zip statements) := by
      refine readLines_eq_ok_iff.mpr ⟨hfst, fun i token statement hget => ?_⟩
      obtain ⟨htoken, hstatement⟩ := List.getElem?_zip_eq_some.mp hget
      obtain ⟨known, hof, hstatement⟩ := heach i token statement htoken hstatement
      rw [List.map_take, hsnd, ← namesAfter, ← hof.eq_namesAfter]
      exact hstatement
    refine ⟨_, readProgram_eq_ok_iff.mpr ⟨_, hread, rfl⟩, ?_⟩
    rw [statements_programOf, hsnd]

end LineScript
