import LineScript.Proofs.Format.Shape

/-!
# Formatting and nesting

An outline is a tree of statements as it may be written: a statement with branches has a body
behind each of its headers and a terminator behind the last body, and a branch that goes on with a
statement stands directly behind the body before it or behind a terminator.

Formatting knows no more than a level, and lets every such branch leave a level.  Where a terminator
has left it already the branch comes out one level too far left, except at the outermost level,
which nothing leaves.  So the levels are the depths of the lines in the outline exactly if all
terminators between branches are those of outermost statements (`Outline.EndsOutermost`).

Main statement: a source that is written as an outline is indented by its nesting exactly if the
outline is of that kind (`textLines_format_outline_iff`).

## Strategy

The source only comes in through the shapes of its lines (`shapes_of_writes`), and what is left is a
statement about lists of shapes and levels.  `LeadsTo` is that statement for a part of an outline:
its levels are the expected ones exactly under a condition, and under that condition it leaves the
level that the next part starts from.  Parts are put together with `LeadsTo.append`, and so the
induction on the outline (`Outline.leadsTo`) adds one line at a time and joins the conditions.

A line with a wrong level settles the matter, whatever comes behind it.  So the level that a part
leaves is claimed under the condition only, and that is enough for the condition to be exact and not
merely sufficient.  It comes from a single place, a branch behind a terminator
(`LeadsTo.closes_continues`).
-/

namespace LineScript

open Text Format

/-! ## Outlines -/

/-- Outlines of statements: those of a body, and those of the first branches of a statement with the
word of the last one.  Bodies and statements with branches both grow at their ends. -/
inductive Outline : Option ActionWord → Type where
  | empty : Outline none
  /-- A line that opens no block. -/
  | line (front : Outline none) (content : Line)
      (hplain : content.action.word.opensBlock = false) : Outline none
  /-- A statement with branches and the terminator behind it. -/
  | compound {last : ActionWord} (front : Outline none) (branches : Outline (some last))
      (state : LineState) (pictograph : Option String) : Outline none
  | first (header : Line) (hopens : header.action.word.opensBlock = true)
      (hfirst : header.action.word.continuesBlock = false) (body : Outline none) :
      Outline (some header.action.word)
  /-- A branch directly behind the body of the branch before it. -/
  | next {previous : ActionWord} (before : Outline (some previous)) (header : Line)
      (hfollows : header.action.word.follows previous = true) (body : Outline none) :
      Outline (some header.action.word)
  /-- A branch behind the terminator of the branch before it. -/
  | nextAfterEnd {previous : ActionWord} (before : Outline (some previous)) (state : LineState)
      (pictograph : Option String) (header : Line)
      (hfollows : header.action.word.follows previous = true) (body : Outline none) :
      Outline (some header.action.word)

namespace Outline

variable {last : Option ActionWord}

/-- The statements of an outline with their depths, if the outline itself is at the given depth.
Headers and terminators are as deep as their statement, and bodies one deeper. -/
def nested (depth : Nat) : {last : Option ActionWord} → Outline last → List (Nat × Statement)
  | _, .empty => []
  | _, .line front content _ => front.nested depth ++ [(depth, .line content)]
  | _, .compound front branches state pictograph =>
      front.nested depth ++ (branches.nested depth ++ [(depth, .blockEnd state pictograph)])
  | _, .first header _ _ body => (depth, .line header) :: body.nested (depth + 1)
  | _, .next before header _ body =>
      before.nested depth ++ (depth, .line header) :: body.nested (depth + 1)
  | _, .nextAfterEnd before state pictograph header _ body =>
      before.nested depth ++
        (depth, .blockEnd state pictograph) :: (depth, .line header) :: body.nested (depth + 1)

/-- Only statements at depth zero have terminators between their branches. -/
def EndsOutermost (depth : Nat) : {last : Option ActionWord} → Outline last → Prop
  | _, .empty => True
  | _, .line front _ _ => front.EndsOutermost depth
  | _, .compound front branches _ _ => front.EndsOutermost depth ∧ branches.EndsOutermost depth
  | _, .first _ _ _ body => body.EndsOutermost (depth + 1)
  | _, .next before _ _ body => before.EndsOutermost depth ∧ body.EndsOutermost (depth + 1)
  | _, .nextAfterEnd before _ _ _ _ body =>
      before.EndsOutermost depth ∧ depth = 0 ∧ body.EndsOutermost (depth + 1)

/-- What the statements of an outline do to the level. -/
def shapes : {last : Option ActionWord} → Outline last → List Shape
  | _, .empty => []
  | _, .line front _ _ => front.shapes ++ [.plain]
  | _, .compound front branches _ _ => front.shapes ++ (branches.shapes ++ [.closes])
  | _, .first _ _ _ body => .opens :: body.shapes
  | _, .next before _ _ body => before.shapes ++ .continues :: body.shapes
  | _, .nextAfterEnd before _ _ _ _ body => before.shapes ++ .closes :: .continues :: body.shapes

end Outline

/-! ## Levels -/

namespace Format

/-- Under a level, lines of the given shapes get the given levels exactly under a condition, and if
it holds they leave the level `final`. -/
structure LeadsTo (level : Nat) (shapes : List Shape) (expected : List Nat) (final : Nat)
    (condition : Prop) : Prop where
  length_eq : expected.length = shapes.length
  levels_iff : levels level shapes = expected ↔ condition
  behind : condition → levelBehind level shapes = final

namespace LeadsTo

variable {level between final : Nat} {front back : List Shape} {expected expected' : List Nat}
  {condition condition' : Prop}

theorem nil : LeadsTo level [] [] level True :=
  ⟨rfl, ⟨fun _ => trivial, fun _ => rfl⟩, fun _ => rfl⟩

theorem append (hfront : LeadsTo level front expected between condition)
    (hback : LeadsTo between back expected' final condition') :
    LeadsTo level (front ++ back) (expected ++ expected') final (condition ∧ condition') where
  length_eq := by rw [List.length_append, List.length_append, hfront.length_eq, hback.length_eq]
  levels_iff := by
    rw [levels_append_eq_iff hfront.length_eq, hfront.levels_iff]
    refine and_congr_right fun hcondition => ?_
    rw [hfront.behind hcondition, hback.levels_iff]
  behind := by
    rintro ⟨hcondition, hcondition'⟩
    rw [levelBehind_append, hfront.behind hcondition, hback.behind hcondition']

theorem single (level : Nat) (shape : Shape) :
    LeadsTo level [shape] [shape.levelOf level] (shape.levelAfter level) True :=
  ⟨rfl, ⟨fun _ => trivial, fun _ => rfl⟩, fun _ => rfl⟩

/-- Behind a terminator a branch that goes on with a statement gets the level of the statement only
if there is no level left to leave. -/
theorem closes_continues (depth : Nat) :
    LeadsTo (depth + 1) [.closes, .continues] [depth, depth] (depth + 1) (depth = 0) := by
  refine ⟨rfl, ?_, ?_⟩
  · simp only [levels, Shape.levelOf, Shape.levelAfter, Nat.add_sub_cancel, List.cons.injEq,
      and_true, true_and]
    omega
  · rintro rfl
    rfl

theorem of_iff (hleads : LeadsTo level front expected final condition)
    (hiff : condition ↔ condition') : LeadsTo level front expected final condition' :=
  propext hiff ▸ hleads

end LeadsTo

end Format

namespace Outline

variable {last : Option ActionWord}

/-- The depths of the statements of an outline. -/
def depths (outline : Outline last) (depth : Nat) : List Nat := (outline.nested depth).map Prod.fst

/-- The level that an outline at a depth should leave: the body of a last branch is still open. -/
def depthBehind (depth : Nat) : Option ActionWord → Nat
  | none => depth
  | some _ => depth + 1

/-- **The invariant.**  As long as terminators between branches are those of outermost statements,
the level behind a part of an outline is right, and otherwise some line in the part has a wrong
one. -/
theorem leadsTo (outline : Outline last) (depth : Nat) :
    LeadsTo depth outline.shapes (outline.depths depth) (depthBehind depth last)
      (outline.EndsOutermost depth) := by
  unfold depths
  induction outline generalizing depth with
  | empty => exact .nil
  | line front content hplain ih =>
      have hline := LeadsTo.single depth .plain
      rw [nested, List.map_append]
      exact ((ih depth).append hline).of_iff (iff_of_eq (and_true _))
  | compound front branches state pictograph ihFront ihBranches =>
      -- the terminator comes out where the header stood
      have hend := LeadsTo.single (depth + 1) .closes
      rw [nested, List.map_append, List.map_append]
      exact ((ihFront depth).append ((ihBranches depth).append hend)).of_iff
        (and_congr_right fun _ => iff_of_eq (and_true _))
  | first header hopens hfirst body ih =>
      have hheader := LeadsTo.single depth .opens
      exact (hheader.append (ih (depth + 1))).of_iff (iff_of_eq (true_and _))
  | next before header hfollows body ihBefore ihBody =>
      have hheader := LeadsTo.single (depth + 1) .continues
      rw [nested, List.map_append]
      exact ((ihBefore depth).append (hheader.append (ihBody (depth + 1)))).of_iff
        (and_congr_right fun _ => iff_of_eq (true_and _))
  | nextAfterEnd before state pictograph header hfollows body ihBefore ihBody =>
      rw [nested, List.map_append]
      -- the terminator has left the level, and the header leaves one more
      exact (ihBefore depth).append ((LeadsTo.closes_continues depth).append (ihBody (depth + 1)))

/-! ## Written outlines -/

theorem map_shape?_nested (outline : Outline last) (depth : Nat) :
    (outline.nested depth).map (fun nested => nested.2.shape?) = outline.shapes.map some := by
  induction outline generalizing depth with
  | empty => rfl
  | line front content hplain ih =>
      simp [nested, shapes, ActionWord.shape_of_plain hplain, ih]
  | compound front branches state pictograph ihFront ihBranches =>
      simp [nested, shapes, ihFront, ihBranches]
  | first header hopens hfirst body ih =>
      simp [nested, shapes, ActionWord.shape_of_first hopens hfirst, ih]
  | next before header hfollows body ihBefore ihBody =>
      simp [nested, shapes, ActionWord.shape_of_follows hfollows, ihBefore, ihBody]
  | nextAfterEnd before state pictograph header hfollows body ihBefore ihBody =>
      simp [nested, shapes, ActionWord.shape_of_follows hfollows, ihBefore, ihBody]

/-- Formatting sees in lines that write an outline what the outline does to the level. -/
theorem shapes_of_writes {outline : Outline last} {depth : Nat} {lines : List (List Char)}
    (hwrites : List.Forall₂ (fun line nested => Writes line nested.2) lines
      (outline.nested depth)) :
    (∀ line ∈ lines, trim line ≠ "~~".toList) ∧
      lines.map (fun line => shapeOf (trim line)) = outline.shapes := by
  -- a line with a statement has the shape of the statement, and is no marker
  have hshapes : List.Forall₂ (fun line shape? => ∀ shape ∈ shape?,
      trim line ≠ "~~".toList ∧ shapeOf (trim line) = shape) lines (outline.shapes.map some) := by
    rw [← map_shape?_nested outline depth, List.forall₂_map_right_iff]
    exact hwrites.imp fun line nested hline shape hshape =>
      ⟨hline.trim_ne_marker hshape, hline.shapeOf_trim hshape⟩
  rw [List.forall₂_map_right_iff] at hshapes
  simp only [Option.mem_some_iff, forall_eq'] at hshapes
  obtain ⟨hmarker, hsame⟩ := (List.forall₂_and_left _ _).mp hshapes
  exact ⟨hmarker, by rwa [← List.forall₂_eq_eq_eq, List.forall₂_map_left_iff]⟩

end Outline

/-- Indented lines show their levels. -/
theorem Format.zipWith_indented_inj {indent : List Char} (hindent : indent ≠ [])
    {lines : List (List Char)} {levels levels' : List Nat} (hlength : levels.length = lines.length)
    (hlength' : levels'.length = lines.length) :
    List.zipWith (fun line level => indented indent level (trim line)) lines levels =
        List.zipWith (fun line level => indented indent level (trim line)) lines levels' ↔
      levels = levels' := by
  refine ⟨fun heq => ?_, fun heq => heq ▸ rfl⟩
  induction lines generalizing levels levels' with
  | nil =>
      rw [List.length_eq_zero_iff.mp hlength, List.length_eq_zero_iff.mp hlength']
  | cons line rest ih =>
      -- the text of a line is the same at any level, so only the indents differ
      obtain ⟨level, others, rfl⟩ := List.exists_cons_of_length_eq_add_one hlength
      obtain ⟨level', others', rfl⟩ := List.exists_cons_of_length_eq_add_one hlength'
      rw [List.zipWith_cons_cons, List.zipWith_cons_cons, List.cons.injEq,
        indented_inj hindent] at heq
      rw [heq.1, ih (Nat.succ.inj hlength) (Nat.succ.inj hlength') heq.2]

/-- **Formatting shows the nesting.**  A source whose lines write an outline is indented by the
depths of the lines in the outline exactly if only outermost statements have terminators between
their branches. -/
theorem textLines_format_outline_iff {indent source : String} (hindent : indent ≠ "")
    (hfeed : '\n' ∉ indent.toList) (outline : Outline none)
    (hwrites : List.Forall₂ (fun line nested => Writes line nested.2) (textLines source)
      (outline.nested 0)) :
    textLines (format indent source) =
        List.zipWith (fun line nested => indented indent.toList nested.1 (trim line))
          (textLines source) (outline.nested 0) ↔
      outline.EndsOutermost 0 := by
  obtain ⟨hmarker, hshapes⟩ := outline.shapes_of_writes hwrites
  have hlevels := outline.leadsTo 0
  have hlength : (outline.depths 0).length = (textLines source).length := by
    rw [Outline.depths, List.length_map, hwrites.length_eq]
  -- the depths in the outline, as a list of levels beside the lines
  have hdepths : List.zipWith (fun line nested => indented indent.toList nested.1 (trim line))
      (textLines source) (outline.nested 0) =
        List.zipWith (fun line level => indented indent.toList level (trim line))
          (textLines source) (outline.depths 0) := by
    rw [Outline.depths, List.zipWith_map_right]
  rw [textLines_format hindent hfeed hmarker, hshapes, hdepths,
    zipWith_indented_inj (by simpa using hindent) _ hlength, hlevels.levels_iff]
  rw [length_levels, ← hlevels.length_eq, hlength]

/-! ### Sources that write an outline -/

theorem writes_end : Writes "end".toList (.blockEnd .continued none) where
  uncommented := by decide
  reads := ⟨.empty, 0, 0, ⟨"end", [], .continued, none, 0, ⟨0, 3⟩⟩, rfl, rfl⟩
  colon := by decide

theorem writes_try :
    Writes "try:".toList (.line ⟨.tryBlock, .continued, none, 0, ⟨0, 4⟩⟩) where
  uncommented := by decide
  reads := ⟨.empty, 0, 0, ⟨"try:", [], .continued, none, 0, ⟨0, 4⟩⟩, rfl, rfl⟩
  colon := by decide

theorem writes_finally :
    Writes "finally:".toList (.line ⟨.finallyBlock, .continued, none, 0, ⟨0, 8⟩⟩) where
  uncommented := by decide
  reads := ⟨.empty, 0, 0, ⟨"finally:", [], .continued, none, 0, ⟨0, 8⟩⟩, rfl, rfl⟩
  colon := by decide

theorem writes_def :
    Writes "def f:".toList (.line ⟨.define "f" [], .continued, none, 0, ⟨0, 6⟩⟩) where
  uncommented := by decide
  reads := ⟨.empty, 0, 0, ⟨"def", ["f:"], .continued, none, 0, ⟨0, 6⟩⟩, rfl, rfl⟩
  colon := by decide

/-- A definition around two branches, of which the second stands directly behind a body that ends
with a statement with branches, and an outermost statement with a terminator between its
branches. -/
theorem textLines_format_outline_of_both_styles :
    let source := "def f:\ntry:\ntry:\nend\nfinally:\nend\nend\ntry:\nend\nfinally:\nend"
    ∃ outline : Outline none,
      "  " ≠ "" ∧ '\n' ∉ "  ".toList ∧
      List.Forall₂ (fun line nested => Writes line nested.2) (textLines source)
        (outline.nested 0) ∧
      outline.EndsOutermost 0 ∧
      textLines (format "  " source) =
        List.zipWith (fun line nested => indented "  ".toList nested.1 (trim line))
          (textLines source) (outline.nested 0) := by
  intro source
  let attempt := Outline.empty.first ⟨.tryBlock, .continued, none, 0, ⟨0, 4⟩⟩ rfl rfl
  let nested := Outline.first ⟨.tryBlock, .continued, none, 0, ⟨0, 4⟩⟩ rfl rfl
    (Outline.empty.compound attempt .continued none)
  let both := nested.next ⟨.finallyBlock, .continued, none, 0, ⟨0, 8⟩⟩ rfl .empty
  let definition := Outline.first ⟨.define "f" [], .continued, none, 0, ⟨0, 6⟩⟩ rfl rfl
    (Outline.empty.compound both .continued none)
  let ended := attempt.nextAfterEnd .continued none
    ⟨.finallyBlock, .continued, none, 0, ⟨0, 8⟩⟩ rfl .empty
  let outline := (Outline.empty.compound definition .continued none).compound ended .continued none
  have hlines : textLines source = ["def f:".toList, "try:".toList, "try:".toList, "end".toList,
      "finally:".toList, "end".toList, "end".toList, "try:".toList, "end".toList,
      "finally:".toList, "end".toList] := by
    decide
  have hwrites : List.Forall₂ (fun line nested => Writes line nested.2) (textLines source)
      (outline.nested 0) := by
    rw [hlines]
    exact .cons writes_def (.cons writes_try (.cons writes_try (.cons writes_end
      (.cons writes_finally (.cons writes_end (.cons writes_end (.cons writes_try
        (.cons writes_end (.cons writes_finally (.cons writes_end .nil))))))))))
  have hends : outline.EndsOutermost 0 := by
    simp [outline, Outline.EndsOutermost, ended, definition, both, nested, attempt]
  refine ⟨outline, by decide, by decide, hwrites, hends, ?_⟩
  exact (textLines_format_outline_iff (by decide) (by decide) outline hwrites).mpr hends

/-- Inside a definition, a branch behind a terminator comes out at the depth of the definition. -/
theorem textLines_format_nested_end :
    let source := "def f:\ntry:\nend\nfinally:\nend\nend"
    ∃ outline : Outline none,
      List.Forall₂ (fun line nested => Writes line nested.2) (textLines source)
        (outline.nested 0) ∧
      format "  " source = "def f:\n  try:\n  end\nfinally:\nend\nend" ∧
      textLines (format "  " source) ≠
        List.zipWith (fun line nested => indented "  ".toList nested.1 (trim line))
          (textLines source) (outline.nested 0) := by
  intro source
  let attempt := Outline.empty.first ⟨.tryBlock, .continued, none, 0, ⟨0, 4⟩⟩ rfl rfl
  let ended := attempt.nextAfterEnd .continued none
    ⟨.finallyBlock, .continued, none, 0, ⟨0, 8⟩⟩ rfl .empty
  let definition := Outline.first ⟨.define "f" [], .continued, none, 0, ⟨0, 6⟩⟩ rfl rfl
    (Outline.empty.compound ended .continued none)
  have hlines : textLines source = ["def f:".toList, "try:".toList, "end".toList,
      "finally:".toList, "end".toList, "end".toList] := by
    decide
  have hwrites : List.Forall₂ (fun line nested => Writes line nested.2) (textLines source)
      ((Outline.empty.compound definition .continued none).nested 0) := by
    rw [hlines]
    exact .cons writes_def (.cons writes_try (.cons writes_end (.cons writes_finally
      (.cons writes_end (.cons writes_end .nil)))))
  exact ⟨Outline.empty.compound definition .continued none, hwrites, by decide,
    by decide⟩

end LineScript
