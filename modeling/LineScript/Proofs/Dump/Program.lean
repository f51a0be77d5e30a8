import LineScript.Dump.Program
import LineScript.Proofs.Dump.Tree

/-!
# What a dump holds

Main statement: two programs have the same dump exactly if they are the same but for the spans of
their lines (`toJson_eq_toJson_iff`).

Trees are read in one way, so that this is a fact about the trees of programs.  The name that an
object begins with tells the forms of a type apart, and the other fields hold all that a form is
made of.  An operand that is missing is `null`, which is no expression: the constant `None` is an
object as all the others are (`dump_ne_null`).

The proofs follow the types from the leaves up.  The tags of the small types are compared first
(`LineState.tag_inj` and the like), then expressions, by recursion on the first of the two, then
actions, lines, statements, segments and flows.  Lines are where the statement turns from equality
to equality but for spans, and from there on `withoutSpan` is carried through the lists around them
(`map_eq_map_iff`).
-/

namespace LineScript

/-! ## Names and texts -/

@[simp] theorem LineState.tag_inj {state state' : LineState} :
    state.tag = state'.tag ↔ state = state' := by
  cases state <;> cases state' <;> decide

@[simp] theorem ArrowDirection.tag_inj {direction direction' : ArrowDirection} :
    direction.tag = direction'.tag ↔ direction = direction' := by
  cases direction <;> cases direction' <;> decide

@[simp] theorem BinaryOp.tag_inj {op op' : BinaryOp} : op.tag = op'.tag ↔ op = op' := by
  cases op <;> cases op' <;> decide

@[simp] theorem UnaryOp.tag_inj {op op' : UnaryOp} : op.tag = op'.tag ↔ op = op' := by
  cases op <;> cases op' <;> decide

@[simp] theorem ArithOp.tag_inj {op op' : ArithOp} : op.tag = op'.tag ↔ op = op' := by
  cases op <;> cases op' <;> decide

@[simp] theorem Json.ofText?_inj {text? text?' : Option String} :
    Json.ofText? text? = Json.ofText? text?' ↔ text? = text?' := by
  cases text? <;> cases text?' <;> simp [Json.ofText?]

@[simp] theorem Json.ofTexts_inj {texts texts' : List String} :
    Json.ofTexts texts = Json.ofTexts texts' ↔ texts = texts' := by
  have htext (text text' : String) : Json.text text = .text text' → text = text' := Json.text.inj
  rw [Json.ofTexts, Json.ofTexts, Json.array.injEq, List.map_inj_right htext]

/-! ## Expressions -/

namespace Expr

mutual

theorem eq_of_dump_eq : ∀ expr expr' : Expr, expr.dump = expr'.dump → expr = expr'
  | .number text, expr', heq => by
      cases expr' with
      | number text' => simpa [dump] using heq
      | _ => simp [dump] at heq
  | .bool value, expr', heq => by
      cases expr' with
      | bool value' => simpa [dump] using heq
      | _ => simp [dump] at heq
  | .none, expr', heq => by
      cases expr' with
      | none => rfl
      | _ => simp [dump] at heq
  | .ident name, expr', heq => by
      cases expr' with
      | ident name' => simpa [dump] using heq
      | _ => simp [dump] at heq
  | .str text quoted, expr', heq => by
      cases expr' with
      | str text' quoted' => simpa [dump] using heq
      | _ => simp [dump] at heq
  | .binary op left right, expr', heq => by
      cases expr' with
      | binary op' left' right' =>
          -- the fields of equal objects are equal one by one
          obtain ⟨hop, hleft, hright⟩ :
              op = op' ∧ left.dump = left'.dump ∧ right.dump = right'.dump := by
            simpa [dump] using heq
          rw [hop, eq_of_dump_eq left left' hleft, eq_of_dump_eq right right' hright]
      | _ => simp [dump] at heq
  | .unary op operand, expr', heq => by
      cases expr' with
      | unary op' operand' =>
          obtain ⟨hop, hoperand⟩ : op = op' ∧ operand.dump = operand'.dump := by
            simpa [dump] using heq
          rw [hop, eq_of_dump_eq operand operand' hoperand]
      | _ => simp [dump] at heq
  | .list elements, expr', heq => by
      cases expr' with
      | list elements' =>
          have helements : dumps elements = dumps elements' := by
            simpa [dump] using heq
          rw [eq_of_dumps_eq elements elements' helements]
      | _ => simp [dump] at heq
  | .dict entries, expr', heq => by
      cases expr' with
      | dict entries' =>
          have hentries : entryDumps entries = entryDumps entries' := by
            simpa [dump] using heq
          rw [eq_of_entryDumps_eq entries entries' hentries]
      | _ => simp [dump] at heq
  | .index container position, expr', heq => by
      cases expr' with
      | index container' position' =>
          obtain ⟨hcontainer, hposition⟩ :
              container.dump = container'.dump ∧ position.dump = position'.dump := by
            simpa [dump] using heq
          rw [eq_of_dump_eq container container' hcontainer,
            eq_of_dump_eq position position' hposition]
      | _ => simp [dump] at heq
  | .call func args, expr', heq => by
      cases expr' with
      | call func' args' =>
          obtain ⟨hfunc, hargs⟩ : func = func' ∧ dumps args = dumps args' := by
            simpa [dump] using heq
          rw [hfunc, eq_of_dumps_eq args args' hargs]
      | _ => simp [dump] at heq

theorem eq_of_dumps_eq : ∀ exprs exprs' : List Expr, dumps exprs = dumps exprs' → exprs = exprs'
  | [], [], _ => rfl
  | [], _ :: _, heq => by simp [dumps] at heq
  | _ :: _, [], heq => by simp [dumps] at heq
  | expr :: rest, expr' :: rest', heq => by
      obtain ⟨hexpr, hrest⟩ := List.cons.inj heq
      rw [eq_of_dump_eq expr expr' hexpr, eq_of_dumps_eq rest rest' hrest]

theorem eq_of_entryDumps_eq :
    ∀ entries entries' : List (Expr × Expr), entryDumps entries = entryDumps entries' →
      entries = entries'
  | [], [], _ => rfl
  | [], _ :: _, heq => by simp [entryDumps] at heq
  | _ :: _, [], heq => by simp [entryDumps] at heq
  | (key, value) :: rest, (key', value') :: rest', heq => by
      obtain ⟨⟨hkey, hvalue⟩, hrest⟩ :
          (key.dump = key'.dump ∧ value.dump = value'.dump) ∧
            entryDumps rest = entryDumps rest' := by
        simpa [entryDumps] using heq
      rw [eq_of_dump_eq key key' hkey, eq_of_dump_eq value value' hvalue,
        eq_of_entryDumps_eq rest rest' hrest]

end

@[simp] theorem dump_inj {expr expr' : Expr} : expr.dump = expr'.dump ↔ expr = expr' :=
  ⟨eq_of_dump_eq expr expr', congrArg dump⟩

@[simp] theorem dumps_inj {exprs exprs' : List Expr} :
    dumps exprs = dumps exprs' ↔ exprs = exprs' :=
  ⟨eq_of_dumps_eq exprs exprs', congrArg dumps⟩

theorem dump_ne_null (expr : Expr) : expr.dump ≠ .null := by
  cases expr <;> nofun

@[simp] theorem dump?_inj {expr? expr?' : Option Expr} :
    dump? expr? = dump? expr?' ↔ expr? = expr?' := by
  cases expr? with
  | none =>
      cases expr?' with
      | none => simp
      | some expr' => simpa [dump?] using expr'.dump_ne_null.symm
  | some expr =>
      cases expr?' with
      | none => simpa [dump?] using expr.dump_ne_null
      | some expr' => simp [dump?]

end Expr

/-! ## Statements -/

/-- The names of the forms differ, and each field of a form shows what it holds. -/
@[simp] theorem Action.dump_inj {action action' : Action} :
    action.dump = action'.dump ↔ action = action' := by
  cases action <;> cases action' <;> simp [dump, dump.form]

/-- A line without its span. -/
def Line.withoutSpan (content : Line) : Line := { content with span := {} }

/-- A statement without the span of its line. -/
def Statement.withoutSpan : Statement → Statement
  | .line content => .line content.withoutSpan
  | statement => statement

theorem Line.withoutSpan_inj {content content' : Line} :
    content.withoutSpan = content'.withoutSpan ↔ content.action = content'.action ∧
      content.state = content'.state ∧ content.pictograph = content'.pictograph ∧
      content.line = content'.line := by
  simp [withoutSpan]

theorem Statement.dump_eq_dump_iff {statement statement' : Statement} :
    statement.dump = statement'.dump ↔ statement.withoutSpan = statement'.withoutSpan := by
  cases statement with
  -- only lines have a span, which is not in the dump
  | line content =>
      cases statement' with
      | line content' => simp [dump, withoutSpan, Line.withoutSpan_inj]
      | _ => simp [dump, withoutSpan]
  | block name state => cases statement' <;> simp [dump, withoutSpan]
  | blockEnd state pictograph => cases statement' <;> simp [dump, withoutSpan]
  | arrow edge =>
      cases statement' with
      | arrow edge' =>
          cases edge
          cases edge'
          simp [dump, withoutSpan]
      | _ => simp [dump, withoutSpan]

/-! ## Programs -/

/-- A segment without the spans of its lines. -/
def Segment.withoutSpans (segment : Segment) : Segment :=
  ⟨segment.statements.map Statement.withoutSpan⟩

/-- A flow without the spans of its lines. -/
def Flow.withoutSpans (flow : Flow) : Flow := ⟨flow.segments.map Segment.withoutSpans⟩

/-- A program without the spans of its lines. -/
def Program.withoutSpans (program : Program) : Program := ⟨program.flows.map Flow.withoutSpans⟩

theorem map_eq_map_iff {α β γ : Type} {f : α → β} {g : α → γ} {xs ys : List α}
    (hfg : ∀ x y, f x = f y ↔ g x = g y) : xs.map f = ys.map f ↔ xs.map g = ys.map g := by
  induction xs generalizing ys with
  | nil => cases ys <;> simp
  | cons x xs ih =>
      cases ys with
      | nil => simp
      | cons y ys =>
          simp only [List.map_cons, List.cons.injEq]
          rw [hfg, ih]

theorem Segment.dump_eq_dump_iff {segment segment' : Segment} :
    segment.dump = segment'.dump ↔ segment.withoutSpans = segment'.withoutSpans := by
  simpa [dump, withoutSpans] using map_eq_map_iff (fun _ _ => Statement.dump_eq_dump_iff)

theorem Flow.dump_eq_dump_iff {flow flow' : Flow} :
    flow.dump = flow'.dump ↔ flow.withoutSpans = flow'.withoutSpans := by
  simpa [dump, withoutSpans] using map_eq_map_iff (fun _ _ => Segment.dump_eq_dump_iff)

theorem Program.dump_eq_dump_iff {program program' : Program} :
    program.dump = program'.dump ↔ program.withoutSpans = program'.withoutSpans := by
  simpa [dump, withoutSpans] using map_eq_map_iff (fun _ _ => Flow.dump_eq_dump_iff)

/-- **A dump loses nothing but spans.**  Two programs have the same dump exactly if they are the
same but for the spans of their lines. -/
theorem Program.toJson_eq_toJson_iff (program program' : Program) :
    program.toJson = program'.toJson ↔ program.withoutSpans = program'.withoutSpans := by
  rw [toJson, toJson, Json.pretty_injective.eq_iff, dump_eq_dump_iff]

end LineScript
