import LineScript.Expr.Progress
import LineScript.Proofs.Expr.Grammar

/-!
# Soundness of the readers

Whatever tokens a reader is given, an expression that it reads is derived by the grammar from
exactly the tokens that it uses.  Main statement: `derives_of_readExpr`, by positions in a token
list.

## Strategy

A reader is sound for a relation if its tokens are those that it uses, followed by those that it
leaves, and the used ones are related to what it returns (`Reader.Sound`).  The proof has one lemma
for each reader, over any reader for the inside of brackets that is sound itself, and ties the knot
by induction on the depth (`readNested_sound`).

Chains of operators and items with bars are read by loops; the lemma for a loop carries the phrase
that is read so far, and each round makes it longer.  For items it is stated for any kind of item,
so that elements and entries are two cases of one lemma (`readItems_sound`).

The loop for arguments has a bound that is a number of tokens, and would stop there without having
used them all.  It never comes to that, since each argument takes a token; this is the one place
where soundness needs that readers advance.
-/

namespace LineScript

/-! ## Sound readers -/

/-- The reader uses tokens that are a phrase for what it reads, and leaves the others. -/
def Reader.Sound {α : Type} (reader : Reader α) (phrase : List String → α → Prop) : Prop :=
  ∀ ⦃tokens value rest⦄, reader tokens = .ok value rest →
    ∃ used, tokens = used ++ rest ∧ phrase used value

variable {lexicon : Lexicon} {inner : InnerReader} {known : KnownNames} {context : Context}

/-- The reader for the inside of brackets is sound for the loosest level. -/
def InnerReader.Sound (inner : InnerReader) (lexicon : Lexicon) : Prop :=
  ∀ context, (inner context).Sound (Derives lexicon .disjunction context)

open Reading

/-! ## Operators -/

theorem readChainRest_sound {phrase tight : Phrase} {operand : Reader Expr}
    (htight : phrase.tighter? = some tight)
    (hoperand : operand.Sound (Derives lexicon tight context)) {bound : Nat}
    {before tokens rest : List String} {left expr : Expr}
    (hleft : Derives lexicon phrase context before left)
    (hread : readChainRest phrase.operator? operand bound left tokens = .ok expr rest) :
    ∃ used, tokens = used ++ rest ∧ Derives lexicon phrase context (before ++ used) expr := by
  -- the loop ends where it stands
  have hstop {before tokens : List String} {left : Expr}
      (hleft : Derives lexicon phrase context before left)
      (hread : Reading.ok left tokens = .ok expr rest) :
      ∃ used, tokens = used ++ rest ∧ Derives lexicon phrase context (before ++ used) expr := by
    cases hread
    exact ⟨[], rfl, by rwa [List.append_nil]⟩
  induction bound generalizing before left tokens with
  | zero => exact hstop hleft hread
  | succ bound ih =>
      cases tokens with
      | nil => exact hstop hleft hread
      | cons word behind =>
          unfold readChainRest at hread
          split at hread
          · exact hstop hleft hread
          next op hop =>
            obtain ⟨right, after, hright, hmore⟩ := andThen_eq_ok_iff.mp hread
            obtain ⟨usedRight, rfl, hderives⟩ := hoperand hright
            -- the phrase so far becomes the left operand of the next round
            obtain ⟨used, rfl, hwhole⟩ := ih (.binary htight hop hleft hderives) hmore
            exact ⟨word :: (usedRight ++ used), by simp, by simpa using hwhole⟩

theorem readChain_sound (phrase : Phrase) {tight : Phrase} {operand : Reader Expr}
    (htight : phrase.tighter? = some tight)
    (hoperand : operand.Sound (Derives lexicon tight context)) :
    (readChain phrase.operator? operand).Sound (Derives lexicon phrase context) := by
  intro tokens expr rest hread
  obtain ⟨first, between, hfirst, hmore⟩ := andThen_eq_ok_iff.mp hread
  obtain ⟨before, rfl, hderives⟩ := hoperand hfirst
  obtain ⟨used, rfl, hwhole⟩ := readChainRest_sound htight hoperand (.loosen htight hderives) hmore
  exact ⟨before ++ used, by simp, hwhole⟩

theorem readSigned_sound {operand : Reader Expr}
    (hoperand : operand.Sound (Derives lexicon .indexed context)) :
    (readSigned operand).Sound (Derives lexicon .signed context) := by
  intro tokens expr rest hread
  fun_induction readSigned operand tokens generalizing expr with
  | case1 sign next behind op hsign ih =>
      obtain ⟨signed, hsigned, rfl⟩ := map_eq_ok_iff.mp hread
      obtain ⟨used, hused, hderives⟩ := ih hsigned
      exact ⟨sign :: used, by rw [hused, List.cons_append], .sign hsign hderives⟩
  | case2 sign next behind hsign =>
      obtain ⟨used, hused, hderives⟩ := hoperand hread
      exact ⟨used, hused, .loosen rfl hderives⟩
  | case3 tokens =>
      obtain ⟨used, hused, hderives⟩ := hoperand hread
      exact ⟨used, hused, .loosen rfl hderives⟩

theorem readComparison_sound {sum : Context → Reader Expr}
    (hsum : ∀ context, (sum context).Sound (Derives lexicon .sum context)) (context : Context) :
    (readComparison sum context).Sound (Derives lexicon .comparison context) := by
  intro tokens expr rest hread
  obtain ⟨left, between, hleft, hmore⟩ := andThen_eq_ok_iff.mp hread
  obtain ⟨before, rfl, hderives⟩ := hsum context hleft
  -- without a comparison word the sum is all there is
  have halone : Reading.ok left between = .ok expr rest → ∃ used, before ++ between = used ++ rest ∧
      Derives lexicon .comparison context used expr := by
    rintro ⟨⟩
    exact ⟨before, rfl, .loosen rfl hderives⟩
  split at hmore
  · exact halone hmore
  next word after =>
    split at hmore
    · exact halone hmore
    next op hop =>
      obtain ⟨right, hright, rfl⟩ := map_eq_ok_iff.mp hmore
      obtain ⟨used, rfl, hvalue⟩ := hsum .value hright
      exact ⟨before ++ word :: used, by simp, .compare hop hderives hvalue⟩

theorem readNegation_sound {comparison : Reader Expr}
    (hcomparison : comparison.Sound (Derives lexicon .comparison context)) :
    (readNegation comparison).Sound (Derives lexicon .negation context) := by
  intro tokens expr rest hread
  have halone {tokens : List String} {expr : Expr} (hread : comparison tokens = .ok expr rest) :
      ∃ used, tokens = used ++ rest ∧ Derives lexicon .negation context used expr := by
    obtain ⟨used, hused, hderives⟩ := hcomparison hread
    exact ⟨used, hused, .loosen rfl hderives⟩
  fun_induction readNegation comparison tokens generalizing expr with
  | case1 => exact halone hread
  | case2 word behind hword ih =>
      obtain ⟨negated, hnegated, rfl⟩ := map_eq_ok_iff.mp hread
      obtain ⟨used, hused, hderives⟩ := ih hnegated
      exact ⟨word :: used, by rw [hused, List.cons_append], .not hword hderives⟩
  | case3 word behind hword => exact halone hread

/-! ## Items between bars -/

theorem readClosing_sound (bracket : Bracket) :
    (readClosing bracket).Sound fun used _ => used = ["]"] := by
  intro tokens value rest hread
  unfold readClosing at hread
  split at hread
  · cases hread
    exact ⟨["]"], rfl, rfl⟩
  · cases hread

section Items

variable {α : Type} {item : Reader α} {one : List String → α → Prop}
  (many : List String → List α → Prop)

/-- Items are collected behind a first one. -/
theorem readMore_sound (hitem : item.Sound one)
    (hlast : ∀ {tokens value}, one tokens value → many tokens [value])
    (hmore : ∀ {tokens value others values}, one tokens value → many others values →
      many (tokens ++ "|" :: others) (value :: values))
    {bound : Nat} {before tokens rest : List String} {first : α} {values : List α}
    (hfirst : one before first) (hread : readMore item bound tokens = .ok values rest) :
    ∃ used, tokens = used ++ rest ∧ many (before ++ used) (first :: values) := by
  induction bound generalizing before tokens first values with
  | zero =>
      cases hread
      exact ⟨[], rfl, by simpa using hlast hfirst⟩
  | succ bound ih =>
      unfold readMore at hread
      split at hread
      next behind hbound =>
        cases hbound
        obtain ⟨second, after, hsecond, hbehind⟩ := andThen_eq_ok_iff.mp hread
        obtain ⟨others, hothers, rfl⟩ := map_eq_ok_iff.mp hbehind
        obtain ⟨usedSecond, rfl, hone⟩ := hitem hsecond
        -- the items behind the second one are in front of nothing else
        obtain ⟨used, rfl, hmany⟩ := ih hone hothers
        exact ⟨"|" :: (usedSecond ++ used), by simp, hmore hfirst hmany⟩
      next =>
        cases hread
        exact ⟨[], rfl, by simpa using hlast hfirst⟩

/-- Items are read together with the bracket behind them. -/
theorem readItems_sound (hitem : item.Sound one)
    (hlast : ∀ {tokens value}, one tokens value → many tokens [value])
    (hmore : ∀ {tokens value others values}, one tokens value → many others values →
      many (tokens ++ "|" :: others) (value :: values)) (bracket : Bracket) :
    (readItems bracket item).Sound fun used values =>
      ∃ inside, used = inside ++ ["]"] ∧ many inside values := by
  intro tokens values rest hread
  obtain ⟨first, between, hfirst, hbehind⟩ := andThen_eq_ok_iff.mp hread
  obtain ⟨others, after, hothers, hbracket⟩ := andThen_eq_ok_iff.mp hbehind
  obtain ⟨_, hclosing, rfl⟩ := map_eq_ok_iff.mp hbracket
  obtain ⟨before, rfl, hone⟩ := hitem hfirst
  obtain ⟨used, rfl, hmany⟩ := readMore_sound many hitem hlast hmore hone hothers
  obtain ⟨_, rfl, rfl⟩ := readClosing_sound bracket hclosing
  exact ⟨before ++ used ++ ["]"], by simp, before ++ used, rfl, hmany⟩

end Items

/-! ## Lists, dictionaries and indices -/

theorem readEntry_sound (hinner : inner.Sound lexicon) :
    (readEntry inner).Sound fun used entry => ∃ key colon value, used = key ++ colon :: value ∧
      isColon colon = true ∧ Derives lexicon .disjunction .value key entry.1 ∧
      Derives lexicon .disjunction .value value entry.2 := by
  intro tokens entry rest hread
  obtain ⟨key, between, hkey, hbehind⟩ := andThen_eq_ok_iff.mp hread
  obtain ⟨usedKey, rfl, hderives⟩ := hinner .value hkey
  split at hbehind
  next colon after =>
    split at hbehind
    next hcolon =>
      obtain ⟨value, hvalue, rfl⟩ := map_eq_ok_iff.mp hbehind
      obtain ⟨usedValue, rfl, hderivesValue⟩ := hinner .value hvalue
      exact ⟨usedKey ++ colon :: usedValue, by simp, usedKey, colon, usedValue, rfl, hcolon,
        hderives, hderivesValue⟩
    next => cases hbehind
  next => cases hbehind

theorem readEntries_sound (hinner : inner.Sound lexicon) :
    (readEntries inner).Sound fun used expr => ∃ inside entries, used = inside ++ ["]"] ∧
      expr = .dict entries ∧ Derives lexicon .entries .value inside (.dict entries) := by
  intro tokens expr rest hread
  obtain ⟨entries, hentries, rfl⟩ := map_eq_ok_iff.mp hread
  have hitems : (readItems .dict (readEntry inner)).Sound fun used entries =>
      ∃ inside, used = inside ++ ["]"] ∧
        Derives lexicon .entries .value inside (.dict entries) := by
    -- items with bars, for entries in the place of items
    refine readItems_sound (fun used entries => Derives lexicon .entries .value used
      (.dict entries)) (readEntry_sound hinner) ?_ ?_ .dict
    · rintro _ ⟨keyExpr, valueExpr⟩ ⟨key, colon, value, rfl, hcolon, hkey, hvalue⟩
      exact .lastEntry hcolon hkey hvalue
    · rintro _ ⟨keyExpr, valueExpr⟩ others values
        ⟨key, colon, value, rfl, hcolon, hkey, hvalue⟩ hothers
      simpa using Derives.entry hcolon hkey hvalue hothers
  obtain ⟨_, rfl, inside, rfl, hderives⟩ := hitems hentries
  exact ⟨inside ++ ["]"], by simp, inside, entries, rfl, rfl, hderives⟩

/-- After an opening bracket. -/
theorem readBracketed_sound (hinner : inner.Sound lexicon) (context : Context) :
    (readBracketed inner).Sound fun used expr =>
      Derives lexicon .indexed context ("[" :: used) expr := by
  intro tokens expr rest hread
  unfold readBracketed at hread
  split at hread
  · cases hread
    exact ⟨["]"], rfl, .emptyList⟩
  · obtain ⟨first, between, hfirst, hbehind⟩ := andThen_eq_ok_iff.mp hread
    split at hbehind
    · -- a colon behind the first expression: it is read again, as a key
      obtain ⟨_, rfl, inside, entries, rfl, rfl, hderives⟩ := readEntries_sound hinner hbehind
      exact ⟨inside ++ ["]"], rfl, .dict hderives⟩
    · obtain ⟨others, after, hothers, hbracket⟩ := andThen_eq_ok_iff.mp hbehind
      obtain ⟨_, hclosing, rfl⟩ := map_eq_ok_iff.mp hbracket
      obtain ⟨before, rfl, hderives⟩ := hinner .value hfirst
      obtain ⟨used, rfl, helements⟩ := readMore_sound
        (fun used elements => Derives lexicon .elements .value used (.list elements))
        (hinner .value) .lastElement .element hderives hothers
      obtain ⟨_, rfl, rfl⟩ := readClosing_sound .list hclosing
      exact ⟨before ++ used ++ ["]"], by simp, .list helements⟩

/-- After a map word and an opening bracket. -/
theorem readDict_sound (hinner : inner.Sound lexicon) (context : Context) {word : String}
    (hword : isMapWord word = true) :
    (readDict inner).Sound fun used expr =>
      Derives lexicon .indexed context (word :: "[" :: used) expr := by
  intro tokens expr rest hread
  unfold readDict at hread
  split at hread
  · cases hread
    exact ⟨["]"], rfl, .emptyDict hword⟩
  · obtain ⟨_, rfl, inside, entries, rfl, rfl, hderives⟩ := readEntries_sound hinner hread
    exact ⟨inside ++ ["]"], rfl, .mapDict hword hderives⟩

theorem readIndices_sound (hinner : inner.Sound lexicon) {bound : Nat}
    {before tokens rest : List String} {container expr : Expr}
    (hcontainer : Derives lexicon .indexed context before container)
    (hread : readIndices inner bound container tokens = .ok expr rest) :
    ∃ used, tokens = used ++ rest ∧ Derives lexicon .indexed context (before ++ used) expr := by
  induction bound generalizing before tokens container with
  | zero =>
      cases hread
      exact ⟨[], rfl, by rwa [List.append_nil]⟩
  | succ bound ih =>
      unfold readIndices at hread
      split at hread
      next behind hbound =>
        cases hbound
        obtain ⟨index, after, hindex, hbracket⟩ := andThen_eq_ok_iff.mp hread
        obtain ⟨_, further, hclosing, hmore⟩ := andThen_eq_ok_iff.mp hbracket
        obtain ⟨usedIndex, rfl, hderives⟩ := hinner .value hindex
        obtain ⟨_, rfl, rfl⟩ := readClosing_sound .index hclosing
        obtain ⟨used, rfl, hwhole⟩ := ih (.index hcontainer hderives) hmore
        exact ⟨"[" :: (usedIndex ++ ["]"] ++ used), by simp, by simpa using hwhole⟩
      next =>
        cases hread
        exact ⟨[], rfl, by rwa [List.append_nil]⟩

/-! ## Parentheses -/

theorem literal?_ne_ident (word name : String) : literal? word ≠ some (.ident name) := by
  unfold literal?
  repeat' split
  all_goals simp

/-- Only a single identifier stands for a variable. -/
theorem Derives.eq_singleton_of_ident {phrase : Phrase} {tokens : List String} {func : String}
    (hderives : Derives (.ofReader known) phrase context tokens (.ident func)) :
    tokens = [func] ∧ literal? func = none ∧ isIdentifier func = true := by
  generalize hexpr : Expr.ident func = expr at hderives
  induction hderives with
  | loosen htight hderives ih => exact ih hexpr
  | word hspells =>
      -- a variable is spelled by a single word, and by no brackets
      cases hspells with
      | literal hliteral => exact absurd (hexpr ▸ hliteral) (literal?_ne_ident _ _)
      | «variable» hliteral hopens hidentifier hknown =>
          cases hexpr
          exact ⟨rfl, hliteral, hidentifier⟩
      | text hliteral hopens hvariable => cases hexpr
  | group hcombination hderives ih =>
      subst hexpr
      cases hcombination
  | _ => cases hexpr

theorem readArguments_sound (hinner : inner.Sound lexicon)
    (hadvances : ∀ context, (inner context).Advances) {bound : Nat} {func : String}
    {before tokens rest : List String} {args more : List Expr}
    (hcall : Derives lexicon .call .name before (.call func args))
    (hbound : tokens.length ≤ bound) (hread : readArguments inner bound tokens = .ok more rest) :
    Derives lexicon .call .name (before ++ tokens) (.call func (args ++ more)) := by
  induction bound generalizing before tokens args more with
  | zero =>
      cases List.eq_nil_of_length_eq_zero (Nat.le_zero.mp hbound)
      cases hread
      rwa [List.append_nil, List.append_nil]
  | succ bound ih =>
      cases tokens with
      | nil =>
          cases hread
          rwa [List.append_nil, List.append_nil]
      | cons token behind =>
          obtain ⟨first, after, hfirst, hmore⟩ := andThen_eq_ok_iff.mp hread
          obtain ⟨others, hothers, rfl⟩ := map_eq_ok_iff.mp hmore
          -- an argument takes at least one token, so that the bound is never reached
          have hlength : after.length < (token :: behind).length := by
            have hfirstAdvances := hadvances .value (token :: behind)
            rw [hfirst] at hfirstAdvances
            exact hfirstAdvances.2
          obtain ⟨used, hused, hderives⟩ := hinner .value hfirst
          have hwhole := ih (.argument hcall hderives) (by omega) hothers
          rw [hused]
          simpa using hwhole

theorem readArguments_ne_nil {tokens rest : List String} {args : List Expr} (htokens : tokens ≠ [])
    (hread : readArguments inner tokens.length tokens = .ok args rest) : args ≠ [] := by
  cases tokens with
  | nil => exact absurd rfl htokens
  | cons token behind =>
      obtain ⟨first, after, -, hmore⟩ := andThen_eq_ok_iff.mp hread
      obtain ⟨others, -, rfl⟩ := map_eq_ok_iff.mp hmore
      exact List.cons_ne_nil first others

/-- A whole token list is an expression, or a name with arguments. -/
theorem readAll_sound (hinner : inner.Sound (.ofReader known))
    (hadvances : ∀ context, (inner context).Advances) {tokens : List String} {expr : Expr}
    (hread : readAll inner context tokens = .ok (some expr)) :
    Derives (.ofReader known) .disjunction context tokens expr ∨
      ∃ func args, expr = .call func args ∧ args ≠ [] ∧
        Derives (.ofReader known) .call .name tokens (.call func args) := by
  unfold readAll at hread
  simp only at hread
  split at hread
  next whole _ hwhole =>
    cases hread
    obtain ⟨first, between, hfirst, hmatch⟩ := andThen_eq_ok_iff.mp hwhole
    obtain ⟨used, rfl, hderives⟩ := hinner context hfirst
    split at hmatch
    · cases hmatch
      exact .inl (by rwa [List.append_nil])
    next func hbetween =>
      obtain ⟨args, hargs, heq⟩ := map_eq_ok_iff.mp hmatch
      cases heq
      -- what is read so far is a name alone, the name of the function
      obtain ⟨rfl, hfunc⟩ := hderives.eq_singleton_of_ident
      have hwhole := readArguments_sound hinner hadvances (.callee hfunc) (Nat.le_refl _) hargs
      exact .inr ⟨func, args, rfl, readArguments_ne_nil hbetween hargs, hwhole⟩
    · cases hmatch
  next => cases hread
  next => cases hread

/-- After an opening parenthesis. -/
theorem readGroup_sound (hinner : inner.Sound (.ofReader known))
    (hadvances : ∀ context, (inner context).Advances) (context : Context) :
    (readGroup inner).Sound fun used expr =>
      Derives (.ofReader known) .indexed context ("(" :: used) expr := by
  intro tokens expr rest hread
  unfold readGroup at hread
  split at hread
  · cases hread
  · cases hread
  next inside after _ hsplit =>
    obtain rfl := append_of_splitAtClosing hsplit
    split at hread
    · cases hread
    · cases hread
    next whole hwhole =>
      split at hread
      next hcombination =>
        cases hread
        -- the tokens used are those inside and the closing parenthesis
        refine ⟨inside ++ [")"], by simp, ?_⟩
        rcases readAll_sound hinner hadvances hwhole with hderives | ⟨func, args, rfl, hargs, hcall⟩
        · exact .group hcombination hderives
        · exact .callGroup hargs hcall
      next => cases hread

/-! ## The levels -/

theorem readPrimary_sound (hinner : inner.Sound (.ofReader known))
    (hadvances : ∀ context, (inner context).Advances) (context : Context) :
    (readPrimary inner known context).Sound (Derives (.ofReader known) .indexed context) := by
  intro tokens expr rest hread
  unfold readPrimary at hread
  split at hread
  · cases hread
  next token behind =>
    split at hread
    next literal hliteral =>
      cases hread
      exact ⟨[token], rfl, .word (.literal hliteral)⟩
    next hliteral =>
      split at hread
      next htoken =>
        obtain ⟨used, rfl, hderives⟩ := readGroup_sound hinner hadvances context hread
        exact ⟨token :: used, rfl, htoken ▸ hderives⟩
      next hparenthesis =>
        split at hread
        next hmap =>
          obtain ⟨hword, hhead⟩ : isMapWord token = true ∧ behind.head? = some "[" := by
            simpa using hmap
          obtain ⟨tail, rfl⟩ := List.head?_eq_some_iff.mp hhead
          obtain ⟨used, hused, hderives⟩ := readDict_sound hinner context hword hread
          rw [List.tail_cons] at hused
          exact ⟨token :: "[" :: used, by rw [hused]; rfl, hderives⟩
        next =>
          split at hread
          next htoken =>
            obtain ⟨used, rfl, hderives⟩ := readBracketed_sound hinner context hread
            exact ⟨token :: used, rfl, htoken ▸ hderives⟩
          next hbracket =>
            cases hread
            exact ⟨[token], rfl, .word (readAs_resolveWord hliteral ⟨hparenthesis, hbracket⟩)⟩

theorem readIndexed_sound (hinner : inner.Sound (.ofReader known))
    (hadvances : ∀ context, (inner context).Advances) (context : Context) :
    (readIndexed inner known context).Sound (Derives (.ofReader known) .indexed context) := by
  intro tokens expr rest hread
  obtain ⟨container, between, hcontainer, hindices⟩ := andThen_eq_ok_iff.mp hread
  obtain ⟨before, rfl, hderives⟩ := readPrimary_sound hinner hadvances context hcontainer
  obtain ⟨used, rfl, hwhole⟩ := readIndices_sound hinner hderives hindices
  exact ⟨before ++ used, by simp, hwhole⟩

theorem readProduct_sound (hinner : inner.Sound (.ofReader known))
    (hadvances : ∀ context, (inner context).Advances) (context : Context) :
    (readProduct inner known context).Sound (Derives (.ofReader known) .product context) :=
  readChain_sound .product rfl (readSigned_sound (readIndexed_sound hinner hadvances context))

theorem readSum_sound (hinner : inner.Sound (.ofReader known))
    (hadvances : ∀ context, (inner context).Advances) (context : Context) :
    (readSum inner known context).Sound (Derives (.ofReader known) .sum context) :=
  readChain_sound .sum rfl (readProduct_sound hinner hadvances context)

theorem readConjunction_sound (hinner : inner.Sound (.ofReader known))
    (hadvances : ∀ context, (inner context).Advances) (context : Context) :
    (readConjunction inner known context).Sound
      (Derives (.ofReader known) .conjunction context) :=
  readChain_sound .conjunction rfl (readNegation_sound
    (readComparison_sound (readSum_sound hinner hadvances) context))

theorem readDisjunction_sound (hinner : inner.Sound (.ofReader known))
    (hadvances : ∀ context, (inner context).Advances) (context : Context) :
    (readDisjunction inner known context).Sound
      (Derives (.ofReader known) .disjunction context) :=
  readChain_sound .disjunction rfl (readConjunction_sound hinner hadvances context)

theorem readNested_sound (known : KnownNames) (depth : Nat) :
    InnerReader.Sound (readNested known depth) (.ofReader known) := by
  induction depth with
  | zero =>
      intro context tokens expr rest hread
      cases hread
  | succ depth ih => exact readDisjunction_sound ih (readNested_advances known depth)

theorem readExpr_sound (known : KnownNames) :
    InnerReader.Sound (readExpr known) (.ofReader known) :=
  fun context tokens _ _ hread => readNested_sound known tokens.length context hread

/-- **No token is lost.**  What is read from a position of a token list up to another one is
derived by the grammar from exactly the tokens between them. -/
theorem derives_of_readExpr {known : KnownNames} {context : Context} {tokens rest : List String}
    {start : Nat} {expr : Expr}
    (hread : readExpr known context (tokens.drop start) = .ok expr rest) :
    ∃ stop, start < stop ∧ stop ≤ tokens.length ∧ rest = tokens.drop stop ∧
      Derives (.ofReader known) .disjunction context ((tokens.take stop).drop start) expr := by
  obtain ⟨used, hused, hderives⟩ := readExpr_sound known context hread
  have hadvances := readExpr_advances known context (tokens.drop start)
  rw [hread] at hadvances
  have hlength : used.length + rest.length = tokens.length - start := by
    rw [← List.length_append, ← hused, List.length_drop]
  have hrest : rest.length < tokens.length - start := by
    simpa using hadvances.2
  refine ⟨start + used.length, by omega, by omega, ?_, ?_⟩
  · rw [← List.drop_drop, hused, List.drop_left]
  · rwa [List.drop_take, hused, Nat.add_sub_cancel_left, List.take_left]

/-- A call in parentheses, behind a token that is skipped and before one that is left. -/
theorem derives_call_in_product :
    readExpr .empty .value (["x", "(", "f", "1", "y", ")", "*", "2", "|"].drop 1) =
        .ok (.binary .mul (.call "f" [.number "1", .bare "y"]) (.number "2")) ["|"] ∧
      ∃ stop, 1 < stop ∧ stop ≤ 9 ∧
        ["|"] = ["x", "(", "f", "1", "y", ")", "*", "2", "|"].drop stop ∧
        Derives (.ofReader .empty) .disjunction .value
          ((["x", "(", "f", "1", "y", ")", "*", "2", "|"].take stop).drop 1)
          (.binary .mul (.call "f" [.number "1", .bare "y"]) (.number "2")) := by
  have hread : readExpr .empty .value (["x", "(", "f", "1", "y", ")", "*", "2", "|"].drop 1) =
      .ok (.binary .mul (.call "f" [.number "1", .bare "y"]) (.number "2")) ["|"] := by
    rfl
  exact ⟨hread, derives_of_readExpr hread⟩

end LineScript
