import LineScript.Proofs.Text.Parted

/-!
# Closed runs

Text between double backticks is looked for from left to right, by cutting at one double backtick
after the other.  What comes of it can be said without going through the text (`ClosedRuns`).  The
first double backtick opens a run, the next one behind it closes the run, and so on behind the run,
as long as there are two more.  Main statement: this describes the stretches of the text, and
nothing else (`closedRuns_iff`).

Double backticks may overlap, and three backticks in a row hold two of them.  The one that closes a
run begins behind both backticks of the one that opens it, and the next run begins behind both
backticks of the one that closes this one.  So what matters is how many double backticks stand in a
text side by side, none of them inside of another: with fewer than two of them there is no run
(`hasRun_iff`).  They can be counted apart on both sides of any other character
(`quoteCount_append_cons`).
-/

namespace LineScript

namespace ExprTokens

variable {text front inside back after rest : List Char} {stretches' : List Stretch} {c : Char}

/-- A double backtick. -/
def quote : List Char := ['\x60', '\x60']

/-- A double backtick that comes behind the text is the first one. -/
def Unquoted (text : List Char) : Prop := ¬ quote <:+: text ++ ['\x60']

/-- Two double backticks stand in the text, one behind the other. -/
def HasRun (text : List Char) : Prop :=
  ∃ front inside back, text = front ++ quote ++ inside ++ quote ++ back

/-- A text consists of stretches: each run reaches from the first double backtick behind the run
before it to the next one, and the rest is plain. -/
inductive ClosedRuns : List Char → List Stretch → Prop
  | none {text : List Char} (hnone : ¬ HasRun text) : ClosedRuns text (Stretch.ofPlain text)
  | run {front inside back : List Char} {stretches : List Stretch} (hfront : Unquoted front)
      (hinside : Unquoted inside) (hback : ClosedRuns back stretches) :
      ClosedRuns (front ++ quote ++ inside ++ quote ++ back)
        (Stretch.ofPlain front ++ .quoted inside :: stretches)

/-! ## Counting double backticks -/

/-- How many double backticks stand in a text side by side. -/
def quoteCount : List Char → Nat
  | '\x60' :: '\x60' :: rest => quoteCount rest + 1
  | _ :: rest => quoteCount rest
  | [] => 0

theorem quoteCount_cons_of_ne (hc : c ≠ '\x60') (rest : List Char) :
    quoteCount (c :: rest) = quoteCount rest := by
  rw [quoteCount]
  exact fun _ heq => absurd heq hc

/-- Only two backticks begin with a double backtick. -/
theorem not_quote_isPrefix (hquote : ∀ more, c = '\x60' → rest = '\x60' :: more → False) :
    ¬ quote <+: c :: rest := by
  rintro ⟨more, hmore⟩
  obtain ⟨rfl, hrest⟩ := List.cons.inj hmore
  exact hquote more rfl hrest.symm

theorem quoteCount_eq_zero_iff : quoteCount text = 0 ↔ ¬ quote <:+: text := by
  fun_induction quoteCount text with
  | case1 rest => simpa [quote] using (List.prefix_append quote rest).isInfix
  | case2 c rest hquote ih =>
      rw [ih, List.infix_cons_iff, or_iff_right (not_quote_isPrefix hquote)]
  | case3 => simp [quote]

/-- A character that is no backtick parts the double backticks. -/
theorem quoteCount_append_cons (hc : c ≠ '\x60') (front back : List Char) :
    quoteCount (front ++ c :: back) = quoteCount front + quoteCount back := by
  fun_induction quoteCount front with
  | case1 rest ih =>
      rw [List.cons_append, List.cons_append, quoteCount, ih]
      omega
  | case2 d rest hquote ih =>
      rw [List.cons_append, quoteCount, ih]
      intro more hd happend
      cases rest with
      | nil => exact hc (List.cons.inj happend).1
      | cons next others => exact hquote others hd (by rw [(List.cons.inj happend).1])
  | case3 => rw [List.nil_append, quoteCount_cons_of_ne hc, Nat.zero_add]

/-- A character in front adds at most one double backtick, and takes none away. -/
theorem quoteCount_cons_bounds (c : Char) (text : List Char) :
    quoteCount text ≤ quoteCount (c :: text) ∧ quoteCount (c :: text) ≤ quoteCount text + 1 := by
  induction text generalizing c with
  | nil => simp [quoteCount]
  | cons d rest ih =>
      by_cases hquote : c = '\x60' ∧ d = '\x60'
      · -- the second backtick is part of the double one, and may have been part of another
        obtain ⟨rfl, rfl⟩ := hquote
        obtain ⟨hle, hge⟩ := ih '\x60'
        rw [quoteCount]
        omega
      · have hsame : quoteCount (c :: d :: rest) = quoteCount (d :: rest) := by
          rw [quoteCount]
          intro more hc heq
          exact hquote ⟨hc, (List.cons.inj heq).1⟩
        omega

theorem quoteCount_le_append (front back : List Char) :
    quoteCount back ≤ quoteCount (front ++ back) := by
  induction front with
  | nil => exact Nat.le_refl _
  | cons c rest ih => exact Nat.le_trans ih (quoteCount_cons_bounds c (rest ++ back)).1

/-! ## The first double backtick -/

theorem unquoted_iff : Unquoted text ↔ quoteCount (text ++ ['\x60']) = 0 :=
  quoteCount_eq_zero_iff.symm

theorem Unquoted.tail (hunquoted : Unquoted (c :: rest)) : Unquoted rest :=
  fun hquote => hunquoted (List.infix_cons hquote)

/-- No double backtick begins in front of the one that comes behind. -/
theorem Unquoted.not_quote (hunquoted : Unquoted (c :: rest)) (back more : List Char)
    (hc : c = '\x60') (happend : rest ++ quote ++ back = '\x60' :: more) : False := by
  subst hc
  apply hunquoted
  apply List.IsPrefix.isInfix
  cases rest with
  | nil => exact ⟨[], rfl⟩
  | cons d others =>
      obtain ⟨rfl, -⟩ := List.cons.inj happend
      exact ⟨others ++ ['\x60'], rfl⟩

theorem cutAtQuote_append_quote (hinside : Unquoted inside) (after : List Char) :
    cutAtQuote (inside ++ quote ++ after) = some (inside, after) := by
  induction inside with
  | nil => rfl
  | cons c rest ih =>
      rw [List.cons_append, List.cons_append, cutAtQuote, ih hinside.tail]
      · rfl
      · exact hinside.not_quote after

theorem quoteCount_append_quote (hfront : Unquoted front) (back : List Char) :
    quoteCount (front ++ quote ++ back) = quoteCount back + 1 := by
  induction front with
  | nil => rfl
  | cons c rest ih =>
      rw [List.cons_append, List.cons_append, quoteCount, ih hfront.tail]
      exact hfront.not_quote back

/-- A text with a double backtick in it has a first one. -/
theorem exists_unquoted (hcount : quoteCount text ≠ 0) :
    ∃ front back, Unquoted front ∧ text = front ++ quote ++ back := by
  fun_induction quoteCount text with
  | case1 rest => exact ⟨[], rest, unquoted_iff.mpr rfl, rfl⟩
  | case2 c rest hquote ih =>
      obtain ⟨front, back, hfront, rfl⟩ := ih hcount
      refine ⟨c :: front, back, ?_, rfl⟩
      rw [unquoted_iff, List.cons_append, quoteCount, unquoted_iff.mp hfront]
      -- what comes behind the first character begins with the same one either way
      intro more hc happend
      cases front with
      | nil => exact hquote _ hc rfl
      | cons d others => exact hquote _ hc (by rw [(List.cons.inj happend).1]; rfl)
  | case3 => exact absurd rfl hcount

theorem cutAtQuote_eq_none_iff : cutAtQuote text = none ↔ quoteCount text = 0 := by
  refine ⟨fun hcut => ?_, fun hcount => ?_⟩
  · by_contra hne
    obtain ⟨front, back, hfront, rfl⟩ := exists_unquoted hne
    rw [cutAtQuote_append_quote hfront] at hcut
    cases hcut
  · cases hcut : cutAtQuote text with
    | none => rfl
    | some parts =>
        refine absurd ?_ (quoteCount_eq_zero_iff.mp hcount)
        exact ⟨parts.1, parts.2, (append_of_cutAtQuote hcut).symm⟩

/-- A text with two double backticks in it begins with a run, or with plain text and a run. -/
theorem exists_run (hcount : 2 ≤ quoteCount text) :
    ∃ front inside back, Unquoted front ∧ Unquoted inside ∧
      text = front ++ quote ++ inside ++ quote ++ back := by
  obtain ⟨front, behind, hfront, rfl⟩ := exists_unquoted (Nat.ne_zero_of_lt hcount)
  rw [quoteCount_append_quote hfront] at hcount
  obtain ⟨inside, back, hinside, rfl⟩ :=
    exists_unquoted (Nat.ne_zero_of_lt (Nat.le_of_succ_le_succ hcount))
  exact ⟨front, inside, back, hfront, hinside, by simp only [List.append_assoc]⟩

theorem hasRun_iff : HasRun text ↔ 2 ≤ quoteCount text := by
  constructor
  · rintro ⟨front, inside, back, rfl⟩
    calc 2 ≤ quoteCount (quote ++ back) + 1 := Nat.le_add_left 2 (quoteCount back)
      _ ≤ quoteCount (inside ++ (quote ++ back)) + 1 :=
        Nat.add_le_add_right (quoteCount_le_append inside (quote ++ back)) 1
      _ = quoteCount (quote ++ (inside ++ (quote ++ back))) := rfl
      _ ≤ quoteCount (front ++ (quote ++ (inside ++ (quote ++ back)))) :=
        quoteCount_le_append front _
      _ = quoteCount (front ++ quote ++ inside ++ quote ++ back) := by
        simp only [List.append_assoc]
  · intro hcount
    -- two double backticks side by side have the run between them
    obtain ⟨front, inside, back, -, -, heq⟩ := exists_run hcount
    exact ⟨front, inside, back, heq⟩

/-! ## Stretches -/

/-- Without a run all is plain. -/
theorem stretches_of_not_hasRun (hnone : ¬ HasRun text) :
    stretches text = Stretch.ofPlain text := by
  have hcount : quoteCount text ≤ 1 := by
    rw [hasRun_iff] at hnone
    omega
  clear hnone
  fun_induction stretches text with
  | case1 => rfl
  | case2 rest inside after hcut _ ih =>
      rw [quoteCount] at hcount
      have hrest : cutAtQuote rest = none := cutAtQuote_eq_none_iff.mpr (by omega)
      rw [hrest] at hcut
      cases hcut
  | case3 rest hcut ih =>
      -- a double backtick that nothing closes is the last one
      have hrest : quoteCount rest = 0 := cutAtQuote_eq_none_iff.mp hcut
      obtain ⟨-, hle⟩ := quoteCount_cons_bounds '\x60' rest
      rw [ih (by omega), Stretch.push_ofPlain]
      rfl
  | case4 c rest hquote ih =>
      rw [quoteCount] at hcount
      · rw [ih hcount, Stretch.push_ofPlain]
        rfl
      · exact hquote

/-- The first double backtick opens a run, and the next one closes it. -/
theorem stretches_run (hfront : Unquoted front) (hinside : Unquoted inside) (back : List Char) :
    stretches (front ++ quote ++ inside ++ quote ++ back) =
      Stretch.ofPlain front ++ .quoted inside :: stretches back := by
  rw [List.append_assoc, List.append_assoc, ← List.append_assoc inside]
  induction front with
  | nil => exact stretches_of_cutAtQuote (cutAtQuote_append_quote hinside back)
  | cons c rest ih =>
      rw [List.cons_append, List.cons_append, stretches, ih hfront.tail]
      · cases rest <;> rfl
      · exact hfront.not_quote _

/-- The stretches of a text are what its closed runs leave of it, and nothing else is. -/
theorem closedRuns_iff : ClosedRuns text stretches' ↔ stretches text = stretches' := by
  constructor
  · intro hruns
    induction hruns with
    | none hnone => exact stretches_of_not_hasRun hnone
    | run hfront hinside hback ih => rw [stretches_run hfront hinside, ih]
  · rintro rfl
    induction hlength : text.length using Nat.strong_induction_on generalizing text with
    | h length ih =>
        by_cases hrun : HasRun text
        · obtain ⟨front, inside, back, hfront, hinside, rfl⟩ := exists_run (hasRun_iff.mp hrun)
          -- behind a run the text is shorter by the run
          have hshorter : back.length < length := by
            rw [← hlength]
            simp [quote]
            omega
          rw [stretches_run hfront hinside]
          exact .run hfront hinside (ih back.length hshorter rfl)
        · rw [stretches_of_not_hasRun hrun]
          exact .none hrun

end ExprTokens

end LineScript
