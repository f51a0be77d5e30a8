import LineScript.Expr.Progress
import Mathlib.Data.List.Forall2

/-!
# Names and the shape of expressions

Known names and contexts decide whether a word is a variable or a text, and nothing else.  The
readers do look at this answer at one place: inside of parentheses, a variable with values behind it
is a call.  There all words are read in the context of names, where the answer is the same whatever
names are known.  So two readings of the same tokens that differ in the known names and in the
context go the same way (`readExpr_resolved`).

## Strategy

The proof relates two readers token list by token list: they fail with the same error at the same
place, or leave the same tokens and related expressions (`Reader.Related`).  Every level of the
grammar is a congruence for this, over any two related readers for the inside of brackets, and
`readNested_resolved` ties the knot by induction on the depth.

The relation of expressions (`Expr.ResolvesIn`) has to say two things at once.  Between any two
contexts it keeps shape, that is, all but whether a word is a variable or a text.  Between two
contexts of names it also keeps which expressions are variables, which is what `readAll` asks for in
front of arguments.  A flag says whether variables may become texts; without it the known names on
the right have to include those on the left, and the relation is the monotonicity of reading.
-/

namespace LineScript

variable {α α' β β' : Type} {demotes : Prop} {known known' : KnownNames}
  {context context' : Context} {inner inner' : InnerReader}

/-! ## Expressions of one shape -/

/-- The expressions are equal but for leaves that are a word as a text in the first one and as a
variable in the second one or, if `demotes` holds, the other way round. -/
inductive Expr.Resolves (demotes : Prop) : Expr → Expr → Prop
  | same (expr : Expr) : Resolves demotes expr expr
  | promoted {word : String} (hword : isIdentifier word = true) :
      Resolves demotes (.bare word) (.ident word)
  | demoted {word : String} (hdemotes : demotes) (hword : isIdentifier word = true) :
      Resolves demotes (.ident word) (.bare word)
  | binary (op : BinaryOp) {left left' right right' : Expr} (hleft : Resolves demotes left left')
      (hright : Resolves demotes right right') :
      Resolves demotes (.binary op left right) (.binary op left' right')
  | unary (op : UnaryOp) {operand operand' : Expr} (hoperand : Resolves demotes operand operand') :
      Resolves demotes (.unary op operand) (.unary op operand')
  | list {elements elements' : List Expr}
      (helements : List.Forall₂ (Resolves demotes) elements elements') :
      Resolves demotes (.list elements) (.list elements')
  | dict {entries entries' : List (Expr × Expr)}
      (hkeys : List.Forall₂ (Resolves demotes) (entries.map Prod.fst) (entries'.map Prod.fst))
      (hvalues : List.Forall₂ (Resolves demotes) (entries.map Prod.snd) (entries'.map Prod.snd)) :
      Resolves demotes (.dict entries) (.dict entries')
  | index {container container' index index' : Expr}
      (hcontainer : Resolves demotes container container')
      (hindex : Resolves demotes index index') :
      Resolves demotes (.index container index) (.index container' index')
  | call (func : String) {args args' : List Expr}
      (hargs : List.Forall₂ (Resolves demotes) args args') :
      Resolves demotes (.call func args) (.call func args')

namespace Expr

theorem Resolves.isCombination_eq {expr expr' : Expr} (hexpr : Resolves demotes expr expr') :
    expr.isCombination = expr'.isCombination := by
  cases hexpr <;> rfl

/-- The expressions have one shape, and if both were read in the context of names, both are a
variable or neither is. -/
def ResolvesIn (demotes : Prop) (context context' : Context) (expr expr' : Expr) : Prop :=
  Resolves demotes expr expr' ∧
    (context = .name → context' = .name → ∀ name, expr = .ident name ↔ expr' = .ident name)

namespace ResolvesIn

variable {left left' right right' : Expr}

theorem same (expr : Expr) : ResolvesIn demotes context context' expr expr :=
  ⟨.same expr, fun _ _ _ => Iff.rfl⟩

theorem binary (op : BinaryOp) (hleft : Resolves demotes left left')
    (hright : Resolves demotes right right') :
    ResolvesIn demotes context context' (.binary op left right) (.binary op left' right') :=
  ⟨.binary op hleft hright, fun _ _ _ => ⟨nofun, nofun⟩⟩

theorem unary (op : UnaryOp) (hoperand : Resolves demotes left left') :
    ResolvesIn demotes context context' (.unary op left) (.unary op left') :=
  ⟨.unary op hoperand, fun _ _ _ => ⟨nofun, nofun⟩⟩

theorem index (hcontainer : Resolves demotes left left') (hindex : Resolves demotes right right') :
    ResolvesIn demotes context context' (.index left right) (.index left' right') :=
  ⟨.index hcontainer hindex, fun _ _ _ => ⟨nofun, nofun⟩⟩

/-- What parentheses enclose is no variable. -/
theorem of_isCombination (hleft : Resolves demotes left left') (hcombination : left.isCombination) :
    ResolvesIn demotes context context' left left' := by
  refine ⟨hleft, fun _ _ name => ⟨?_, ?_⟩⟩
  · rintro rfl
    cases hcombination
  · rintro rfl
    rw [hleft.isCombination_eq] at hcombination
    cases hcombination

theorem list {elements elements' : List Expr}
    (helements : List.Forall₂ (Resolves demotes) elements elements') :
    ResolvesIn demotes context context' (.list elements) (.list elements') :=
  ⟨.list helements, fun _ _ _ => ⟨nofun, nofun⟩⟩

theorem dict {entries entries' : List (Expr × Expr)}
    (hentries : List.Forall₂ (fun entry entry' => Resolves demotes entry.1 entry'.1 ∧
      Resolves demotes entry.2 entry'.2) entries entries') :
    ResolvesIn demotes context context' (.dict entries) (.dict entries') := by
  refine ⟨.dict ?_ ?_, fun _ _ _ => ⟨nofun, nofun⟩⟩
  · rw [List.forall₂_map_left_iff, List.forall₂_map_right_iff]
    exact hentries.imp fun _ _ => And.left
  · rw [List.forall₂_map_left_iff, List.forall₂_map_right_iff]
    exact hentries.imp fun _ _ => And.right

end ResolvesIn

end Expr

open LineScript.Expr (Resolves ResolvesIn)

/-- A word is a leaf of one kind or the other.  A text may become a variable at any time, but not
the other way round if the second reading knows no less than the first. -/
theorem resolveWord_resolved
    (hknown : demotes ∨ ∀ word, known.contains word = true → known'.contains word = true)
    (hcontext : demotes ∨ context = context') (word : String) :
    ResolvesIn demotes context context' (resolveWord known context word)
      (resolveWord known' context' word) := by
  unfold resolveWord
  cases hword : isIdentifier word with
  | false => exact .same _
  | true =>
      simp only [Bool.true_and]
      cases hfirst : context == .name || known.contains word with
      | false =>
          cases hsecond : context' == .name || known'.contains word with
          | false => exact .same _
          | true => exact ⟨.promoted hword, fun hname => by simp [hname] at hfirst⟩
      | true =>
          cases hsecond : context' == .name || known'.contains word with
          | false =>
              -- a variable on the left and a text on the right: more names were known on the left
              refine ⟨.demoted ?_ hword, fun _ hname => by simp [hname] at hsecond⟩
              rcases hcontext with hdemotes | rfl
              · exact hdemotes
              · refine hknown.resolve_right fun hall => ?_
                simp only [Bool.or_eq_true] at hfirst
                simp only [Bool.or_eq_false_iff] at hsecond
                obtain ⟨hvalue, hunknown⟩ := hsecond
                -- by the context it cannot be, both being contexts of values
                rcases hfirst with hname | hcontains
                · exact absurd hname (Bool.eq_false_iff.mp hvalue)
                · exact absurd (hall word hcontains) (Bool.eq_false_iff.mp hunknown)
          | true => exact .same _

/-! ## Readings that go the same way -/

namespace Reading

/-- Both readings fail in the same way, or both read something, with related results.  In either
case they leave the same tokens. -/
def Related (rel : α → α' → Prop) : Reading α → Reading α' → Prop
  | .ok value rest, .ok value' rest' => rel value value' ∧ rest = rest'
  | .error cause rest, .error cause' rest' => cause = cause' ∧ rest = rest'
  | .ok .., .error .. | .error .., .ok .. => False

variable {rel : α → α' → Prop} {rel' : β → β' → Prop}

theorem Related.andThen {reading : Reading α} {reading' : Reading α'} {next : α → Reader β}
    {next' : α' → Reader β'} (hreading : reading.Related rel reading')
    (hnext : ∀ value value' rest, rel value value' →
      (next value rest).Related rel' (next' value' rest)) :
    (reading.andThen next).Related rel' (reading'.andThen next') := by
  match reading, reading', hreading with
  | .ok value rest, .ok value' _, ⟨hvalue, rfl⟩ => exact hnext value value' rest hvalue
  | .error cause rest, .error _ _, ⟨rfl, rfl⟩ => exact ⟨rfl, rfl⟩

theorem Related.map {reading : Reading α} {reading' : Reading α'} {f : α → β} {f' : α' → β'}
    (hreading : reading.Related rel reading')
    (hvalue : ∀ value value', rel value value' → rel' (f value) (f' value')) :
    (reading.map f).Related rel' (reading'.map f') :=
  hreading.andThen fun value value' _ hrel => ⟨hvalue value value' hrel, rfl⟩

theorem Related.imp {stronger : α → α' → Prop} {reading : Reading α} {reading' : Reading α'}
    (hreading : reading.Related stronger reading')
    (himp : ∀ value value', stronger value value' → rel value value') :
    reading.Related rel reading' := by
  match reading, reading', hreading with
  | .ok value rest, .ok value' _, ⟨hvalue, hrest⟩ => exact ⟨himp value value' hvalue, hrest⟩
  | .error cause rest, .error _ _, hsame => exact hsame

end Reading

/-- The readers go the same way on all tokens. -/
def Reader.Related (rel : α → α' → Prop) (reader : Reader α) (reader' : Reader α') : Prop :=
  ∀ tokens, (reader tokens).Related rel (reader' tokens)

open Reading

/-! ## Chains of operators -/

theorem readChainRest_resolved (operator : String → Option BinaryOp)
    {operand operand' : Reader Expr}
    (hoperand : operand.Related (ResolvesIn demotes context context') operand') (bound : Nat)
    {left left' : Expr} (hleft : ResolvesIn demotes context context' left left') :
    (readChainRest operator operand bound left).Related (ResolvesIn demotes context context')
      (readChainRest operator operand' bound left') := by
  induction bound generalizing left left' with
  | zero => exact fun tokens => ⟨hleft, rfl⟩
  | succ bound ih =>
      intro tokens
      cases tokens with
      | nil => exact ⟨hleft, rfl⟩
      | cons token rest =>
          unfold readChainRest
          split
          · exact ⟨hleft, rfl⟩
          next op _ =>
            -- the operands are related, and so is what they are combined to
            exact (hoperand rest).andThen fun right right' after hright =>
              ih (.binary op hleft.1 hright.1) after

theorem readChain_resolved (operator : String → Option BinaryOp) {operand operand' : Reader Expr}
    (hoperand : operand.Related (ResolvesIn demotes context context') operand') :
    (readChain operator operand).Related (ResolvesIn demotes context context')
      (readChain operator operand') := fun tokens =>
  (hoperand tokens).andThen fun _ _ rest hfirst =>
    readChainRest_resolved operator hoperand rest.length hfirst rest

/-! ## Between brackets -/

theorem readClosing_related (bracket : Bracket) :
    (readClosing bracket).Related (fun _ _ => True) (readClosing bracket) := by
  intro tokens
  cases readClosing bracket tokens with
  | ok => exact ⟨trivial, rfl⟩
  | error => exact ⟨rfl, rfl⟩

theorem readMore_related {rel : α → α' → Prop} {item : Reader α} {item' : Reader α'}
    (hitem : item.Related rel item') (bound : Nat) :
    (readMore item bound).Related (List.Forall₂ rel) (readMore item' bound) := by
  induction bound with
  | zero => exact fun tokens => ⟨.nil, rfl⟩
  | succ bound ih =>
      intro tokens
      unfold readMore
      split
      next rest hbound =>
        cases hbound
        exact (hitem rest).andThen fun _ _ after hfirst =>
          (ih after).map fun _ _ hmore => .cons hfirst hmore
      next => exact ⟨.nil, rfl⟩

theorem readItems_related {rel : α → α' → Prop} (bracket : Bracket) {item : Reader α}
    {item' : Reader α'} (hitem : item.Related rel item') :
    (readItems bracket item).Related (List.Forall₂ rel) (readItems bracket item') := fun tokens =>
  (hitem tokens).andThen fun _ _ rest hfirst =>
    (readMore_related hitem rest.length rest).andThen fun _ _ after hmore =>
      (readClosing_related bracket after).map fun _ _ _ => .cons hfirst hmore

section Inner

variable (hinner : ∀ context,
  (inner context).Related (ResolvesIn demotes context context) (inner' context))

include hinner

theorem readEntry_resolved :
    (readEntry inner).Related (fun entry entry' => Resolves demotes entry.1 entry'.1 ∧
      Resolves demotes entry.2 entry'.2) (readEntry inner') := by
  intro tokens
  refine (hinner .value tokens).andThen fun key key' rest hkey => ?_
  cases rest with
  | nil => exact ⟨rfl, rfl⟩
  | cons token after =>
      simp only
      split
      · exact (hinner .value after).map fun _ _ hvalue => ⟨hkey.1, hvalue.1⟩
      · exact ⟨rfl, rfl⟩

theorem readEntries_resolved :
    (readEntries inner).Related (ResolvesIn demotes context context') (readEntries inner') :=
  fun tokens => (readItems_related .dict (readEntry_resolved hinner) tokens).map
    fun _ _ => .dict

theorem readDict_resolved :
    (readDict inner).Related (ResolvesIn demotes context context') (readDict inner') := by
  intro tokens
  unfold readDict
  split
  · exact ⟨.same _, rfl⟩
  · exact readEntries_resolved hinner _

theorem readBracketed_resolved :
    (readBracketed inner).Related (ResolvesIn demotes context context')
      (readBracketed inner') := by
  intro tokens
  have helement : (inner .value).Related (Resolves demotes) (inner' .value) := fun tokens =>
    (hinner .value tokens).imp fun _ _ => And.left
  unfold readBracketed
  split
  · exact ⟨.same _, rfl⟩
  · refine (helement _).andThen fun first first' rest hfirst => ?_
    split
    · exact readEntries_resolved hinner _
    · exact (readMore_related helement rest.length rest).andThen fun _ _ after hmore =>
        (readClosing_related .list after).map fun _ _ _ => .list (.cons hfirst hmore)

theorem readIndices_resolved (bound : Nat) {container container' : Expr}
    (hcontainer : ResolvesIn demotes context context' container container') :
    (readIndices inner bound container).Related (ResolvesIn demotes context context')
      (readIndices inner' bound container') := by
  induction bound generalizing container container' with
  | zero => exact fun tokens => ⟨hcontainer, rfl⟩
  | succ bound ih =>
      intro tokens
      unfold readIndices
      split
      next rest hbound =>
        cases hbound
        exact (hinner .value rest).andThen fun _ _ after hindex =>
          (readClosing_related .index after).andThen fun _ _ behind _ =>
            ih (.index hcontainer.1 hindex.1) behind
      next => exact ⟨hcontainer, rfl⟩

/-! ## Parentheses -/

theorem readArguments_resolved (bound : Nat) :
    (readArguments inner bound).Related (List.Forall₂ (Resolves demotes))
      (readArguments inner' bound) := by
  induction bound with
  | zero => exact fun tokens => ⟨.nil, rfl⟩
  | succ bound ih =>
      intro tokens
      cases tokens with
      | nil => exact ⟨.nil, rfl⟩
      | cons token rest =>
          unfold readArguments
          exact (hinner .value _).andThen fun _ _ after hfirst =>
            (ih after).map fun _ _ hmore => .cons hfirst.1 hmore

/-- In the context of names a whole token list is an expression or call for both readers, for
neither, or a mistake for both.  It is a call for both or neither because variables are the same
there. -/
theorem readAll_resolved (tokens : List String) :
    (∃ cause, readAll inner .name tokens = .error cause ∧
      readAll inner' .name tokens = .error cause) ∨
    (readAll inner .name tokens = .ok none ∧ readAll inner' .name tokens = .ok none) ∨
    ∃ expr expr', Resolves demotes expr expr' ∧ readAll inner .name tokens = .ok (some expr) ∧
      readAll inner' .name tokens = .ok (some expr') := by
  unfold readAll
  extract_lets whole whole'
  have hwhole : whole.Related (Option.Rel (Resolves demotes)) whole' := by
    refine (hinner .name tokens).andThen fun expr expr' rest hexpr => ?_
    cases rest with
    | nil => exact ⟨.some hexpr.1, rfl⟩
    | cons token after =>
        -- in the context of names both are variables, or neither is
        have hident := hexpr.2 rfl rfl
        split
        next hrest => cases hrest
        next func _ =>
          obtain rfl := (hident func).mp rfl
          -- a call on both sides
          exact (readArguments_resolved hinner _ _).map fun _ _ hargs => .some (.call func hargs)
        next hother _ =>
          split
          next hrest => cases hrest
          next func _ => exact absurd ((hident func).mpr rfl) (hother func)
          next => exact ⟨.none, rfl⟩
  match whole, whole', hwhole with
  | .ok none _, .ok none _, _ => exact .inr (.inl ⟨rfl, rfl⟩)
  | .ok (some expr) _, .ok (some expr') _, ⟨.some hexpr, _⟩ =>
      exact .inr (.inr ⟨expr, expr', hexpr, rfl, rfl⟩)
  | .error cause _, .error _ _, ⟨rfl, _⟩ =>
      cases cause with
      | misplacedParentheses => exact .inl ⟨_, rfl, rfl⟩
      | _ => exact .inr (.inl ⟨rfl, rfl⟩)

theorem readGroup_resolved :
    (readGroup inner).Related (ResolvesIn demotes context context') (readGroup inner') := by
  intro tokens
  unfold readGroup
  split
  · exact ⟨rfl, rfl⟩
  · exact ⟨rfl, rfl⟩
  next inside after _ _ =>
    rcases readAll_resolved hinner inside with
      ⟨cause, hfirst, hsecond⟩ | ⟨hfirst, hsecond⟩ | ⟨expr, expr', hexpr, hfirst, hsecond⟩
    · rw [hfirst, hsecond]
      exact ⟨rfl, rfl⟩
    · rw [hfirst, hsecond]
      exact ⟨rfl, rfl⟩
    · rw [hfirst, hsecond]
      simp only
      -- whether the parentheses are misplaced depends on the shape alone
      rw [← hexpr.isCombination_eq]
      split
      next hcombination => exact ⟨.of_isCombination hexpr hcombination, rfl⟩
      next => exact ⟨rfl, rfl⟩

/-! ## The levels -/

section Levels

variable (hknown : demotes ∨ ∀ word, known.contains word = true → known'.contains word = true)

include hknown

theorem readPrimary_resolved (hcontext : demotes ∨ context = context') :
    (readPrimary inner known context).Related (ResolvesIn demotes context context')
      (readPrimary inner' known' context') := by
  intro tokens
  unfold readPrimary
  split
  · exact ⟨rfl, rfl⟩
  · split
    · exact ⟨.same _, rfl⟩
    · split
      · exact readGroup_resolved hinner _
      · split
        · exact readDict_resolved hinner _
        · split
          · exact readBracketed_resolved hinner _
          · exact ⟨resolveWord_resolved hknown hcontext _, rfl⟩

theorem readIndexed_resolved (hcontext : demotes ∨ context = context') :
    (readIndexed inner known context).Related (ResolvesIn demotes context context')
      (readIndexed inner' known' context') := fun tokens =>
  (readPrimary_resolved hinner hknown hcontext tokens).andThen fun _ _ rest hcontainer =>
    readIndices_resolved hinner rest.length hcontainer rest

omit hinner hknown in
theorem readSigned_resolved {operand operand' : Reader Expr}
    (hoperand : operand.Related (ResolvesIn demotes context context') operand') :
    (readSigned operand).Related (ResolvesIn demotes context context') (readSigned operand') := by
  intro tokens
  fun_induction readSigned operand tokens with
  | case1 sign next rest op hsign ih =>
      simp only [readSigned, hsign]
      exact ih.map fun _ _ hvalue => .unary op hvalue.1
  | case2 sign next rest hsign =>
      simp only [readSigned, hsign]
      exact hoperand _
  | case3 tokens hshort =>
      unfold readSigned
      split
      · exact absurd rfl (hshort _ _ _)
      · exact hoperand _

omit hinner hknown in
theorem readNegation_resolved {comparison comparison' : Reader Expr}
    (hcomparison : comparison.Related (ResolvesIn demotes context context') comparison') :
    (readNegation comparison).Related (ResolvesIn demotes context context')
      (readNegation comparison') := by
  intro tokens
  fun_induction readNegation comparison tokens with
  | case1 => exact hcomparison []
  | case2 token rest htoken ih =>
      simp only [readNegation, htoken, if_true]
      exact ih.map fun _ _ hvalue => .unary .not hvalue.1
  | case3 token rest htoken =>
      simp only [readNegation, htoken]
      exact hcomparison _

omit hinner hknown in
theorem readComparison_resolved {sum sum' : Context → Reader Expr}
    (hleft : (sum context).Related (ResolvesIn demotes context context') (sum' context'))
    (hright : (sum .value).Related (ResolvesIn demotes .value .value) (sum' .value)) :
    (readComparison sum context).Related (ResolvesIn demotes context context')
      (readComparison sum' context') := by
  intro tokens
  refine (hleft tokens).andThen fun left left' rest hleft => ?_
  cases rest with
  | nil => exact ⟨hleft, rfl⟩
  | cons token after =>
      simp only
      split
      next => exact ⟨hleft, rfl⟩
      next op _ => exact (hright after).map fun _ _ hright => .binary op hleft.1 hright.1

theorem readSum_resolved (hcontext : demotes ∨ context = context') :
    (readSum inner known context).Related (ResolvesIn demotes context context')
      (readSum inner' known' context') :=
  readChain_resolved _ (readChain_resolved _
    (readSigned_resolved (readIndexed_resolved hinner hknown hcontext)))

theorem readDisjunction_resolved (hcontext : demotes ∨ context = context') :
    (readDisjunction inner known context).Related (ResolvesIn demotes context context')
      (readDisjunction inner' known' context') :=
  readChain_resolved _ (readChain_resolved _ (readNegation_resolved
    (readComparison_resolved (readSum_resolved hinner hknown hcontext)
      (readSum_resolved hinner hknown (.inr rfl)))))

end Levels

end Inner

/-! ## Expressions -/

theorem readNested_resolved
    (hknown : demotes ∨ ∀ word, known.contains word = true → known'.contains word = true)
    (hcontext : demotes ∨ context = context') (depth : Nat) :
    (readNested known depth context).Related (ResolvesIn demotes context context')
      (readNested known' depth context') := by
  induction depth generalizing context context' with
  | zero => exact fun tokens => ⟨rfl, rfl⟩
  | succ depth ih =>
      exact readDisjunction_resolved (fun _ => ih (.inr rfl)) hknown hcontext

/-- **Names do not change the shape.**  Whatever names are known and whatever the context is,
readings of the same tokens fail in the same way at the same place, or leave the same tokens and
give expressions of one shape.  In the same context, a variable stays one if more names are known.
-/
theorem readExpr_resolved (known known' : KnownNames) (context context' : Context)
    (tokens : List String) :
    (readExpr known context tokens).Related (Resolves True) (readExpr known' context' tokens) ∧
      ((∀ word, known.contains word = true → known'.contains word = true) → context = context' →
        (readExpr known context tokens).Related (Resolves False)
          (readExpr known' context' tokens)) := by
  refine ⟨?_, fun hknown hcontext => ?_⟩
  · exact (readNested_resolved (.inl trivial) (.inl trivial) tokens.length tokens).imp
      fun _ _ => And.left
  · exact (readNested_resolved (.inr hknown) (.inr hcontext) tokens.length tokens).imp
      fun _ _ => And.left

/-- With another known name a text becomes a variable, next to a call of an unknown name. -/
theorem readExpr_resolved_of_declared :
    let known : KnownNames := .empty
    let tokens := ["a", "-", "(", "f", "a", ")"]
    (∀ word, known.contains word = true → (known.declare "a").contains word = true) ∧
      readExpr known .value tokens =
        .ok (.binary .sub (.bare "a") (.call "f" [.bare "a"])) [] ∧
      readExpr (known.declare "a") .value tokens =
        .ok (.binary .sub (.ident "a") (.call "f" [.ident "a"])) [] ∧
      (readExpr known .value tokens).Related (Resolves False)
        (readExpr (known.declare "a") .value tokens) := by
  intro known tokens
  have hknown : ∀ word, known.contains word = true → (known.declare "a").contains word = true :=
    fun word hcontains => absurd hcontains Bool.false_ne_true
  exact ⟨hknown, by rfl, by rfl, (readExpr_resolved known _ .value .value tokens).2 hknown rfl⟩

end LineScript
