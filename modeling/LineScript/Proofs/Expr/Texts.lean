import LineScript.Proofs.Expr.Soundness
import LineScript.Proofs.Text.Words

/-!
# Texts in expressions

An expression holds texts: names, numerals, and texts between quotes or without them.  Main
statement: the readers make up no character of them.  If tokens consist of allowed characters only,
so do the texts of what is read from them (`onlyOf_texts_of_readExpr`, `onlyOf_texts_of_readWhole`).

The readers are sound for the grammar, so that this is a fact about its phrases
(`Derives.onlyOf_texts`): each text of a phrase is one of its tokens, or what stands between the
quotes of one.  What is allowed is left open.  For code on single lines it is everything but line
breaks, and nothing in the proof depends on that.
-/

namespace LineScript

mutual

/-- The texts in an expression. -/
def Expr.texts : Expr → List String
  | .number text => [text]
  | .bool _ | .none => []
  | .ident name => [name]
  | .str text _ => [text]
  | .binary _ left right => left.texts ++ right.texts
  | .unary _ operand => operand.texts
  | .list elements => Expr.textsOfAll elements
  | .dict entries => Expr.textsOfEntries entries
  | .index container position => container.texts ++ position.texts
  | .call func args => func :: Expr.textsOfAll args

/-- The texts in expressions. -/
def Expr.textsOfAll : List Expr → List String
  | [] => []
  | expr :: rest => expr.texts ++ Expr.textsOfAll rest

/-- The texts in the entries of a dictionary. -/
def Expr.textsOfEntries : List (Expr × Expr) → List String
  | [] => []
  | (key, value) :: rest => key.texts ++ value.texts ++ Expr.textsOfEntries rest

end

theorem Expr.textsOfAll_append (front back : List Expr) :
    Expr.textsOfAll (front ++ back) = Expr.textsOfAll front ++ Expr.textsOfAll back := by
  induction front with
  | nil => rfl
  | cons expr rest ih =>
      rw [List.cons_append, Expr.textsOfAll, Expr.textsOfAll, ih, List.append_assoc]

variable {allowed : Char → Prop} {known : KnownNames} {context : Context} {tokens : List String}
  {expr : Expr}

/-! ## Words -/

theorem OnlyOf.quotedText? {word text : String} (hword : OnlyOf allowed word)
    (hquoted : quotedText? word = some text) : OnlyOf allowed text := by
  unfold LineScript.quotedText? at hquoted
  split at hquoted
  next rest hchars =>
    split at hquoted
    next inside hreverse =>
      split at hquoted
      · cases hquoted
      · cases hquoted
        intro c hc
        -- what is between the quotes is a part of the word
        have hrest : rest = inside.reverse ++ ['\x60', '\x60'] := by
          rw [← rest.reverse_reverse, hreverse]
          simp
        refine hword c ?_
        rw [String.toList_ofList] at hc
        simp [hchars, hrest, hc]
    next => cases hquoted
  next => cases hquoted

theorem OnlyOf.texts_of_literal? {word : String} (hword : OnlyOf allowed word)
    (hliteral : literal? word = some expr) : ∀ text ∈ expr.texts, OnlyOf allowed text := by
  unfold literal? at hliteral
  split at hliteral
  · cases hliteral
    simp [Expr.texts]
  · split at hliteral
    · cases hliteral
      simp [Expr.texts]
    · split at hliteral
      · cases hliteral
        simp [Expr.texts]
      · split at hliteral
        next text hquoted =>
          cases hliteral
          simpa [Expr.texts] using hword.quotedText? hquoted
        next =>
          split at hliteral
          · cases hliteral
            simpa [Expr.texts] using hword
          · cases hliteral

/-! ## Phrases -/

/-- The texts of a phrase are made of the characters of its tokens. -/
theorem Derives.onlyOf_texts {phrase : Phrase}
    (hderives : Derives (.ofReader known) phrase context tokens expr)
    (htokens : ∀ token ∈ tokens, OnlyOf allowed token) :
    ∀ text ∈ expr.texts, OnlyOf allowed text := by
  induction hderives with
  | loosen htight hderives ih => exact ih htokens
  | binary htight hop hleft hright ihLeft ihRight =>
      simp only [List.forall_mem_append, List.forall_mem_cons, Expr.texts] at htokens ⊢
      exact ⟨ihLeft htokens.1, ihRight htokens.2.2⟩
  | compare hop hleft hright ihLeft ihRight =>
      simp only [List.forall_mem_append, List.forall_mem_cons, Expr.texts] at htokens ⊢
      exact ⟨ihLeft htokens.1, ihRight htokens.2.2⟩
  | not hword hderives ih => exact ih (List.forall_mem_cons.mp htokens).2
  | sign hop hderives ih => exact ih (List.forall_mem_cons.mp htokens).2
  | index hcontainer hindex ihContainer ihIndex =>
      simp only [List.forall_mem_append, List.forall_mem_cons, Expr.texts] at htokens ⊢
      exact ⟨ihContainer htokens.1, ihIndex htokens.2.2.1⟩
  -- a word is a constant, a name, or a text, and holds itself in all these cases
  | word hspells =>
      have hword := htokens _ (List.mem_singleton_self _)
      cases hspells with
      | literal hliteral => exact hword.texts_of_literal? hliteral
      | «variable» hliteral hopens hidentifier hknown => simpa [Expr.texts] using hword
      | text hliteral hopens hvariable => simpa [Expr.texts] using hword
  | group hcombination hderives ih =>
      simp only [List.forall_mem_append, List.forall_mem_cons] at htokens
      exact ih htokens.2.1
  | callGroup hargs hderives ih =>
      simp only [List.forall_mem_append, List.forall_mem_cons] at htokens
      exact ih htokens.2.1
  | callee hfunc => simpa [Expr.texts, Expr.textsOfAll] using htokens
  -- the name of the function comes first, and the arguments in their order
  | argument hcall harg ihCall ihArg =>
      simp only [List.forall_mem_append, List.forall_mem_cons, Expr.texts, Expr.textsOfAll,
        Expr.textsOfAll_append, List.append_nil] at htokens ihCall ⊢
      obtain ⟨hfunc, hargs⟩ := ihCall htokens.1
      exact ⟨hfunc, hargs, ihArg htokens.2⟩
  | emptyList => simp [Expr.texts, Expr.textsOfAll]
  | list helements ih =>
      simp only [List.forall_mem_append, List.forall_mem_cons] at htokens
      exact ih htokens.2.1
  | lastElement helement ih => simpa [Expr.texts, Expr.textsOfAll] using ih htokens
  | element helement hmore ihElement ihMore =>
      simp only [List.forall_mem_append, List.forall_mem_cons, Expr.texts, Expr.textsOfAll]
        at htokens ihMore ⊢
      exact ⟨ihElement htokens.1, ihMore htokens.2.2⟩
  | emptyDict hword => simp [Expr.texts, Expr.textsOfEntries]
  | mapDict hword hentries ih =>
      simp only [List.forall_mem_append, List.forall_mem_cons] at htokens
      exact ih htokens.2.2.1
  | dict hentries ih =>
      simp only [List.forall_mem_append, List.forall_mem_cons] at htokens
      exact ih htokens.2.1
  | lastEntry hcolon hkey hvalue ihKey ihValue =>
      simp only [List.forall_mem_append, List.forall_mem_cons, Expr.texts, Expr.textsOfEntries,
        List.append_nil] at htokens ⊢
      exact ⟨ihKey htokens.1, ihValue htokens.2.2⟩
  | entry hcolon hkey hvalue hmore ihKey ihValue ihMore =>
      simp only [List.forall_mem_append, List.forall_mem_cons, Expr.texts, Expr.textsOfEntries]
        at htokens ihMore ⊢
      exact ⟨⟨ihKey htokens.1, ihValue htokens.2.2.1⟩, ihMore htokens.2.2.2.2⟩

/-! ## Readers -/

theorem onlyOf_texts_of_readExpr {rest : List String}
    (hread : readExpr known context tokens = .ok expr rest)
    (htokens : ∀ token ∈ tokens, OnlyOf allowed token) :
    ∀ text ∈ expr.texts, OnlyOf allowed text := by
  obtain ⟨used, rfl, hderives⟩ := readExpr_sound known context hread
  exact hderives.onlyOf_texts (List.forall_mem_append.mp htokens).1

theorem onlyOf_texts_of_readWhole
    (hread : readWhole known context tokens = .ok (some expr))
    (htokens : ∀ token ∈ tokens, OnlyOf allowed token) :
    ∀ text ∈ expr.texts, OnlyOf allowed text := by
  rcases readAll_sound (readExpr_sound known) (readExpr_advances known) hread with
    hderives | ⟨func, args, rfl, -, hcall⟩
  · exact hderives.onlyOf_texts htokens
  · exact hcall.onlyOf_texts htokens

end LineScript
