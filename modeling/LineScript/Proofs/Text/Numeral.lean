import LineScript.Text.Numeral
import Mathlib.Data.List.TakeWhile

/-!
# The shape of numerals

`isNumeric` looks at the neighbours of the underscores first, and then at the text without them.
Here the shape of the text itself is told: digits with single underscores between them
(`DigitPart`), a point with digits on at least one side (`Pointed`), and a power (`Exponent`) behind
either of them.

Main statements: the numerals are the texts that have this shape without their sign
(`isNumeric_iff`), and those without underscores are texts of floating point numbers
(`isFloat_eq_true_iff`).

## Strategy

The check works on two texts, with and without underscores, and the shape is about one.  What
connects them is that underscores are left out of each part by itself.

* **From the check to the shape** texts are taken apart from the front.  Where underscores separate
  digits, a text begins with digits, or none, and goes on with neither a digit nor an underscore
  (`exists_digits`).  Without underscores it is cut at the same place (`takeWhile_filter`,
  `dropWhile_filter`), so that each part of the shape is found where the check finds it.
* **From the shape to the check** each part passes its own checks (`checks_of_exponent`,
  `isDecimal_of_digitPart`, `isDecimal_of_pointed`), and underscores separate digits across the
  parts since a part ends before something that is neither (`underscoresSeparate_append`).

The check also accepts the words for infinity and for no number, but asks for a digit beforehand, so
that none of them is numeric.
-/

namespace LineScript.Text

/-! ## Shapes -/

/-- Digits with single underscores between them, or nothing.  Where they follow a digit (`true`),
they may begin with an underscore. -/
inductive Digits : Bool → List Char → Prop where
  | nil {after : Bool} : Digits after []
  | digit {after : Bool} {c : Char} {rest : List Char} (hc : c.isDigit = true)
      (hrest : Digits true rest) : Digits after (c :: rest)
  | separated {rest : List Char} (hrest : Digits false rest) (hne : rest ≠ []) :
      Digits true ('_' :: rest)

/-- One or more digits with single underscores between them. -/
def DigitPart (text : List Char) : Prop := Digits false text ∧ text ≠ []

/-- A point with digits on at least one side. -/
inductive Pointed : List Char → Prop where
  | mk {whole fraction : List Char} (hwhole : Digits false whole)
      (hfraction : Digits false fraction)
      (hdigits : whole ≠ [] ∨ fraction ≠ []) : Pointed (whole ++ '.' :: fraction)

/-- The letter `e` and the digits of a power, which may have a sign. -/
inductive Exponent : List Char → Prop where
  | mk {letter : Char} {power : List Char} (hletter : letter = 'e' ∨ letter = 'E')
      (hpower : DigitPart (dropSign power)) : Exponent (letter :: power)

/-- A numeral without a sign. -/
inductive Numeral : List Char → Prop where
  | integer {text : List Char} (hdigits : DigitPart text) : Numeral text
  | pointed {text : List Char} (hpointed : Pointed text) : Numeral text
  | scaled {coefficient exponent : List Char}
      (hcoefficient : DigitPart coefficient ∨ Pointed coefficient) (hexponent : Exponent exponent) :
      Numeral (coefficient ++ exponent)

variable {after : Bool} {text run rest : List Char}

theorem toNat_of_isDigit {c : Char} (hdigit : c.isDigit = true) : 48 ≤ c.toNat ∧ c.toNat ≤ 57 := by
  simpa [Char.isDigit, UInt32.le_iff_toNat_le] using hdigit

theorem ne_underscore_of_isDigit {c : Char} (hdigit : c.isDigit = true) : c ≠ '_' := by
  rintro rfl
  cases hdigit

theorem Digits.isDigit_or (hrun : Digits after run) {c : Char} (hmem : c ∈ run) :
    c.isDigit = true ∨ c = '_' := by
  induction hrun with
  | nil => cases hmem
  | digit hc _ ih =>
      rcases List.mem_cons.mp hmem with rfl | hrest
      · exact .inl hc
      · exact ih hrest
  | separated _ _ ih =>
      rcases List.mem_cons.mp hmem with rfl | hrest
      · exact .inr rfl
      · exact ih hrest

/-! ## Digits at the front -/

/-- A text that begins with neither a digit nor an underscore. -/
def EndsDigits (text : List Char) : Prop := ∀ c ∈ text.head?, c.isDigit = false ∧ c ≠ '_'

theorem EndsDigits.cons {c : Char} (hdigit : c.isDigit = false) (hunderscore : c ≠ '_') :
    EndsDigits (c :: rest) := by
  intro first hfirst
  cases hfirst
  exact ⟨hdigit, hunderscore⟩

theorem underscoresSeparate_cons {c : Char} (hunderscore : c ≠ '_') :
    underscoresSeparate after (c :: rest) = underscoresSeparate c.isDigit rest := by
  rw [underscoresSeparate, if_neg hunderscore]

/-- A text is cut behind the digits that it begins with. -/
theorem exists_digits (hseparate : underscoresSeparate after text = true) :
    ∃ run rest, text = run ++ rest ∧ Digits after run ∧ EndsDigits rest ∧
      underscoresSeparate false rest = true := by
  induction text generalizing after with
  | nil => exact ⟨[], [], rfl, .nil, nofun, rfl⟩
  | cons c more ih =>
      by_cases hunderscore : c = '_'
      · subst hunderscore
        simp only [underscoresSeparate, if_true, Bool.and_eq_true] at hseparate
        obtain ⟨⟨rfl, hdigit⟩, hseparate⟩ := hseparate
        obtain ⟨run, rest, rfl, hrun, hends, hrest⟩ := ih hseparate
        refine ⟨'_' :: run, rest, rfl, .separated hrun ?_, hends, hrest⟩
        -- the digit behind the underscore is in the run
        rintro rfl
        obtain ⟨first, hfirst, hyes⟩ := (Option.any_eq_true _ _).mp hdigit
        exact absurd hyes (Bool.eq_false_iff.mp (hends first hfirst).1)
      · rw [underscoresSeparate_cons hunderscore] at hseparate
        cases hdigit : c.isDigit with
        | true =>
            rw [hdigit] at hseparate
            obtain ⟨run, rest, rfl, hrun, hends, hrest⟩ := ih hseparate
            exact ⟨c :: run, rest, rfl, .digit hdigit hrun, hends, hrest⟩
        | false =>
            -- the run is empty, and the text goes on with this character
            refine ⟨[], c :: more, rfl, .nil, .cons hdigit hunderscore, ?_⟩
            rwa [underscoresSeparate_cons hunderscore]

/-! ## Texts without their underscores -/

theorem Digits.isDigit_of_mem_filter (hrun : Digits after run) {c : Char}
    (hmem : c ∈ run.filter (· != '_')) : c.isDigit = true := by
  rw [List.mem_filter, bne_iff_ne] at hmem
  exact (hrun.isDigit_or hmem.1).resolve_right hmem.2

theorem Digits.ne_nil_of_filter (hfilter : run.filter (· != '_') ≠ []) : run ≠ [] := by
  rintro rfl
  exact hfilter rfl

theorem filter_cons_of_ne {c : Char} (hunderscore : c ≠ '_') :
    (c :: rest).filter (· != '_') = c :: rest.filter (· != '_') :=
  List.filter_cons_of_pos (bne_iff_ne.mpr hunderscore)

theorem EndsDigits.filter_cons {c : Char} (hends : EndsDigits (c :: rest)) :
    (c :: rest).filter (· != '_') = c :: rest.filter (· != '_') :=
  filter_cons_of_ne (hends c rfl).2

/-- Without underscores the digits at the front are the same. -/
theorem takeWhile_filter (hrun : Digits after run) (hends : EndsDigits rest) :
    ((run ++ rest).filter (· != '_')).takeWhile Char.isDigit = run.filter (· != '_') := by
  rw [List.filter_append, List.takeWhile_append_of_pos fun c => hrun.isDigit_of_mem_filter]
  cases rest with
  | nil => simp
  | cons c more => simp [hends.filter_cons, (hends c rfl).1]

theorem dropWhile_filter (hrun : Digits after run) (hends : EndsDigits rest) :
    ((run ++ rest).filter (· != '_')).dropWhile Char.isDigit = rest.filter (· != '_') := by
  rw [List.filter_append, List.dropWhile_append_of_pos fun c => hrun.isDigit_of_mem_filter]
  cases rest with
  | nil => simp
  | cons c more => simp [hends.filter_cons, (hends c rfl).1]

theorem digitPart_of_isDigits (hseparate : underscoresSeparate false text = true)
    (hdigits : isDigits (text.filter (· != '_')) = true) : DigitPart text := by
  rw [isDigits, Bool.and_eq_true, Bool.not_eq_true', List.isEmpty_eq_false_iff] at hdigits
  obtain ⟨hne, hall⟩ := hdigits
  obtain ⟨run, rest, rfl, hrun, hends, -⟩ := exists_digits hseparate
  cases rest with
  | nil =>
      rw [List.append_nil] at hne ⊢
      exact ⟨hrun, Digits.ne_nil_of_filter hne⟩
  | cons c more =>
      -- behind the run there would be a character that is no digit
      have hdigit : c.isDigit = true := by
        refine List.all_eq_true.mp hall c (List.mem_filter.mpr ⟨?_, bne_iff_ne.mpr (hends c rfl).2⟩)
        exact List.mem_append_right _ List.mem_cons_self
      exact absurd hdigit (Bool.eq_false_iff.mp (hends c rfl).1)

/-! ## Signs -/

theorem mem_dropSign {c : Char} (hmem : c ∈ text) : c = '+' ∨ c = '-' ∨ c ∈ dropSign text := by
  unfold dropSign
  split
  next => exact (List.mem_cons.mp hmem).imp_right .inr
  next => exact .inr (List.mem_cons.mp hmem)
  next => exact .inr (.inr hmem)

theorem mem_of_mem_dropSign {c : Char} (hmem : c ∈ dropSign text) : c ∈ text := by
  unfold dropSign at hmem
  split at hmem
  next => exact List.mem_cons_of_mem _ hmem
  next => exact List.mem_cons_of_mem _ hmem
  next => exact hmem

theorem dropSign_cons {c : Char} (hplus : c ≠ '+') (hminus : c ≠ '-') :
    dropSign (c :: rest) = c :: rest := by
  unfold dropSign
  split
  next heq => exact absurd (List.cons.inj heq).1 hplus
  next heq => exact absurd (List.cons.inj heq).1 hminus
  next => rfl

/-- A sign is dropped whether there are underscores behind it or not. -/
theorem dropSign_filter (hseparate : underscoresSeparate false text = true) :
    dropSign (text.filter (· != '_')) = (dropSign text).filter (· != '_') ∧
      underscoresSeparate false (dropSign text) = true := by
  cases text with
  | nil => exact ⟨rfl, rfl⟩
  | cons c rest =>
      by_cases hplus : c = '+'
      · subst hplus
        exact ⟨rfl, hseparate⟩
      by_cases hminus : c = '-'
      · subst hminus
        exact ⟨rfl, hseparate⟩
      -- no text begins with an underscore that separates
      have hunderscore : c ≠ '_' := by
        rintro rfl
        simp [underscoresSeparate] at hseparate
      rw [filter_cons_of_ne hunderscore, dropSign_cons hplus hminus, dropSign_cons hplus hminus,
        filter_cons_of_ne hunderscore]
      exact ⟨rfl, hseparate⟩

/-! ## Numerals -/

theorem exponent_of_isExponent (hends : EndsDigits rest)
    (hseparate : underscoresSeparate false rest = true)
    (hexponent : isExponent (rest.filter (· != '_')) = true) : rest = [] ∨ Exponent rest := by
  cases rest with
  | nil => exact .inl rfl
  | cons letter power =>
      rw [hends.filter_cons, isExponent, Bool.and_eq_true, Bool.or_eq_true, beq_iff_eq,
        beq_iff_eq] at hexponent
      obtain ⟨hletter, hdigits⟩ := hexponent
      rw [underscoresSeparate_cons (hends letter rfl).2, (hends letter rfl).1] at hseparate
      obtain ⟨hsign, hpower⟩ := dropSign_filter hseparate
      rw [hsign] at hdigits
      exact .inr (.mk hletter (digitPart_of_isDigits hpower hdigits))

/-- A coefficient is a numeral with a power behind it and without. -/
theorem Numeral.of_coefficient {coefficient exponent : List Char}
    (hcoefficient : DigitPart coefficient ∨ Pointed coefficient)
    (hexponent : exponent = [] ∨ Exponent exponent) : Numeral (coefficient ++ exponent) := by
  rcases hexponent with rfl | hexponent
  · rw [List.append_nil]
    exact hcoefficient.elim .integer .pointed
  · exact .scaled hcoefficient hexponent

theorem numeral_of_isDecimal (hseparate : underscoresSeparate false text = true)
    (hdecimal : isDecimal (text.filter (· != '_')) = true) : Numeral text := by
  obtain ⟨whole, rest, rfl, hwhole, hends, hrest⟩ := exists_digits hseparate
  rw [isDecimal, takeWhile_filter hwhole hends, dropWhile_filter hwhole hends] at hdecimal
  by_cases hpoint : ∃ more, rest = '.' :: more
  · obtain ⟨more, rfl⟩ := hpoint
    obtain ⟨fraction, exponent, rfl, hfraction, hends', hexponent⟩ :=
      exists_digits (show underscoresSeparate false more = true from hrest)
    simp only [hends.filter_cons, takeWhile_filter hfraction hends',
      dropWhile_filter hfraction hends', Bool.and_eq_true, Bool.or_eq_true, Bool.not_eq_true',
      List.isEmpty_eq_false_iff] at hdecimal
    obtain ⟨hdigits, hpower⟩ := hdecimal
    -- digits on at least one side of the point
    have hpointed : Pointed (whole ++ '.' :: fraction) :=
      .mk hwhole hfraction (hdigits.imp Digits.ne_nil_of_filter Digits.ne_nil_of_filter)
    rw [← List.cons_append, ← List.append_assoc]
    exact .of_coefficient (.inr hpointed) (exponent_of_isExponent hends' hexponent hpower)
  · split at hdecimal
    next heq =>
      -- the first character behind the digits is there without underscores too
      cases rest with
      | nil => cases heq
      | cons c more =>
          rw [hends.filter_cons, List.cons.injEq] at heq
          exact absurd ⟨more, by rw [heq.1]⟩ hpoint
    next =>
      rw [Bool.and_eq_true, Bool.not_eq_true', List.isEmpty_eq_false_iff] at hdecimal
      obtain ⟨hdigits, hpower⟩ := hdecimal
      exact .of_coefficient (.inl ⟨hwhole, Digits.ne_nil_of_filter hdigits⟩)
        (exponent_of_isExponent hends hrest hpower)

/-! ## Words for numbers -/

theorem isDigit_toLower {c : Char} (hdigit : c.isDigit = true) : c.toLower.isDigit = true := by
  have hsmall : ¬ (c.val ≥ 'A'.val ∧ c.val ≤ 'Z'.val) := by
    simp only [Char.isDigit, Bool.and_eq_true, decide_eq_true_eq, ge_iff_le,
      UInt32.le_iff_toNat_le] at hdigit ⊢
    have h9 : '9'.val.toNat < 'A'.val.toNat := by decide
    omega
  have hsame : c.toLower = c := dif_neg hsmall
  rwa [hsame]

/-- The words for numbers contain no digit. -/
theorem not_isDigit_of_isNumberWord {text : List Char} (hword : isNumberWord text = true) {c : Char}
    (hmem : c ∈ text) : c.isDigit = false := by
  have hlower : ∀ word ∈ ["inf".toList, "infinity".toList, "nan".toList], ∀ c ∈ word,
      c.isDigit = false := by simp
  cases hdigit : c.isDigit with
  | false => rfl
  | true =>
      have hnone := hlower (text.map Char.toLower) (by simpa [isNumberWord] using hword)
        c.toLower (List.mem_map_of_mem hmem)
      exact absurd (isDigit_toLower hdigit) (by simp [hnone])

/-- Without its sign, a numeral consists of digits, a point and a power. -/
theorem numeral_of_isNumeric (hnumeric : isNumeric text = true) : Numeral (dropSign text) := by
  simp only [isNumeric, isFloat, Bool.and_eq_true, Bool.or_eq_true] at hnumeric
  obtain ⟨⟨hdigits, hseparate⟩, hfloat⟩ := hnumeric
  obtain ⟨hsign, hseparate⟩ := dropSign_filter hseparate
  rw [hsign] at hfloat
  rcases hfloat with hdecimal | hword
  · exact numeral_of_isDecimal hseparate hdecimal
  · -- a word for a number has no digit, and the text has one
    obtain ⟨digit, hmem, hdigit⟩ := List.any_eq_true.mp hdigits
    rcases mem_dropSign hmem with rfl | rfl | hmem
    · cases hdigit
    · cases hdigit
    · have hkept : digit ∈ (dropSign text).filter (· != '_') :=
        List.mem_filter.mpr ⟨hmem, bne_iff_ne.mpr (ne_underscore_of_isDigit hdigit)⟩
      rw [not_isDigit_of_isNumberWord hword hkept] at hdigit
      cases hdigit

/-! ## First characters of numerals -/

theorem Digits.head {c : Char} (hrun : Digits false (c :: rest)) : c.isDigit = true := by
  cases hrun with
  | digit hc _ => exact hc

theorem Pointed.head {c : Char} (hpointed : Pointed (c :: rest)) :
    c.isDigit = true ∨ c = '.' := by
  generalize htext : c :: rest = text at hpointed
  cases hpointed with
  | @mk whole fraction hwhole _ _ =>
      cases whole with
      | nil => exact .inr (List.cons.inj htext).1
      | cons =>
          obtain ⟨rfl, -⟩ := List.cons.inj htext
          exact .inl hwhole.head

theorem Numeral.head {c : Char} (hnumeral : Numeral (c :: rest)) :
    c.isDigit = true ∨ c = '.' := by
  generalize htext : c :: rest = text at hnumeral
  cases hnumeral with
  | integer hdigits =>
      subst htext
      exact .inl hdigits.1.head
  | pointed hpointed =>
      subst htext
      exact hpointed.head
  | @scaled coefficient _ hcoefficient _ =>
      -- the coefficient is not empty, and stands in front
      obtain ⟨first, more, rfl⟩ : ∃ first more, coefficient = first :: more := by
        apply List.exists_cons_of_ne_nil
        rcases hcoefficient with hdigits | ⟨_, _, _⟩
        · exact hdigits.2
        · simp
      obtain ⟨rfl, -⟩ := List.cons.inj htext
      exact hcoefficient.elim (fun hdigits => .inl hdigits.1.head) Pointed.head

/-- A numeral starts with a digit, a sign or a point. -/
theorem head_of_isNumeric {c : Char} (hnumeric : isNumeric (c :: rest) = true) :
    c.isDigit = true ∨ c = '+' ∨ c = '-' ∨ c = '.' := by
  by_cases hplus : c = '+'
  · exact .inr (.inl hplus)
  by_cases hminus : c = '-'
  · exact .inr (.inr (.inl hminus))
  have hnumeral := numeral_of_isNumeric hnumeric
  rw [dropSign_cons hplus hminus] at hnumeral
  exact hnumeral.head.imp_right fun hpoint => .inr (.inr hpoint)

/-! ## Texts of the shape -/

/-- What is in front of a text matters only to an underscore. -/
theorem EndsDigits.underscoresSeparate_eq (hends : EndsDigits rest) (after : Bool) :
    underscoresSeparate after rest = underscoresSeparate false rest := by
  cases rest with
  | nil => rfl
  | cons c more =>
      have hunderscore := (hends c rfl).2
      rw [underscoresSeparate_cons hunderscore, underscoresSeparate_cons hunderscore]

/-- The underscores in digits are fine, whatever is behind the digits. -/
theorem underscoresSeparate_append (hrun : Digits after run) (hends : EndsDigits rest) :
    underscoresSeparate after (run ++ rest) = underscoresSeparate false rest := by
  induction hrun with
  | nil => exact hends.underscoresSeparate_eq _
  | digit hc _ ih =>
      rw [List.cons_append, underscoresSeparate_cons (ne_underscore_of_isDigit hc), hc, ih]
  | @separated run hrun hne ih =>
      obtain ⟨first, more, rfl⟩ := List.exists_cons_of_ne_nil hne
      rw [List.cons_append, underscoresSeparate, if_pos rfl, ih]
      simp [hrun.head]

namespace DigitPart

theorem exists_digit (hdigits : DigitPart text) : ∃ c ∈ text, c.isDigit = true := by
  obtain ⟨first, more, rfl⟩ := List.exists_cons_of_ne_nil hdigits.2
  exact ⟨first, List.mem_cons_self, hdigits.1.head⟩

theorem filter_ne_nil (hdigits : DigitPart text) : text.filter (· != '_') ≠ [] := by
  obtain ⟨c, hmem, hdigit⟩ := hdigits.exists_digit
  have hkept := bne_iff_ne.mpr (ne_underscore_of_isDigit hdigit)
  exact List.ne_nil_of_mem (List.mem_filter.mpr ⟨hmem, hkept⟩)

theorem isDigits_filter (hdigits : DigitPart text) :
    isDigits (text.filter (· != '_')) = true := by
  rw [isDigits, Bool.and_eq_true, Bool.not_eq_true', List.isEmpty_eq_false_iff]
  exact ⟨hdigits.filter_ne_nil, List.all_eq_true.mpr fun _ => hdigits.1.isDigit_of_mem_filter⟩

theorem separated (hdigits : DigitPart text) : underscoresSeparate false text = true := by
  have hseparate : underscoresSeparate false (text ++ []) = underscoresSeparate false [] :=
    underscoresSeparate_append hdigits.1 nofun
  rwa [List.append_nil] at hseparate

end DigitPart

/-- A sign in front changes nothing about the underscores. -/
theorem underscoresSeparate_dropSign (text : List Char) :
    underscoresSeparate false (dropSign text) = underscoresSeparate false text := by
  unfold dropSign
  split <;> rfl

/-- A power passes all checks, and goes on with no digits that are in front of it. -/
theorem checks_of_exponent (hpower : text = [] ∨ Exponent text) :
    EndsDigits text ∧ underscoresSeparate false text = true ∧
      isExponent (text.filter (· != '_')) = true := by
  rcases hpower with rfl | ⟨@⟨letter, power, hletter, hpower⟩⟩
  · exact ⟨nofun, rfl, rfl⟩
  -- the digits of the power, behind their sign
  have hseparate : underscoresSeparate false power = true := by
    rw [← underscoresSeparate_dropSign]
    exact hpower.separated
  have hdigits : isDigits (dropSign (power.filter (· != '_'))) = true := by
    rw [(dropSign_filter hseparate).1]
    exact hpower.isDigits_filter
  rcases hletter with rfl | rfl
  · exact ⟨.cons rfl (by decide), hseparate, hdigits⟩
  · exact ⟨.cons rfl (by decide), hseparate, hdigits⟩

/-- A numeral is a coefficient with a power behind it or nothing. -/
theorem Numeral.exists_coefficient (hnumeral : Numeral text) :
    ∃ coefficient power, text = coefficient ++ power ∧
      (DigitPart coefficient ∨ Pointed coefficient) ∧ (power = [] ∨ Exponent power) := by
  cases hnumeral with
  | integer hdigits => exact ⟨text, [], (List.append_nil _).symm, .inl hdigits, .inl rfl⟩
  | pointed hpointed => exact ⟨text, [], (List.append_nil _).symm, .inr hpointed, .inl rfl⟩
  | scaled hcoefficient hexponent => exact ⟨_, _, rfl, hcoefficient, .inr hexponent⟩

theorem isDecimal_of_digitPart {power : List Char} (hdigits : DigitPart run)
    (hpower : power = [] ∨ Exponent power) :
    isDecimal ((run ++ power).filter (· != '_')) = true := by
  obtain ⟨hends, -, hexponent⟩ := checks_of_exponent hpower
  rw [isDecimal, takeWhile_filter hdigits.1 hends, dropWhile_filter hdigits.1 hends]
  split
  next heq =>
    rw [heq] at hexponent
    cases hexponent
  next => simp [hdigits.filter_ne_nil, hexponent]

theorem isDecimal_of_pointed {power : List Char} (hpointed : Pointed run)
    (hpower : power = [] ∨ Exponent power) :
    isDecimal ((run ++ power).filter (· != '_')) = true := by
  obtain ⟨hends, -, hexponent⟩ := checks_of_exponent hpower
  cases hpointed with
  | @mk whole fraction hwhole hfraction hdigits =>
      have hpoint : EndsDigits ('.' :: (fraction ++ power)) := .cons rfl (by decide)
      have hnonempty : whole.filter (· != '_') ≠ [] ∨ fraction.filter (· != '_') ≠ [] :=
        hdigits.imp (fun hne => DigitPart.filter_ne_nil ⟨hwhole, hne⟩)
          (fun hne => DigitPart.filter_ne_nil ⟨hfraction, hne⟩)
      rw [List.append_assoc, List.cons_append, isDecimal, takeWhile_filter hwhole hpoint,
        dropWhile_filter hwhole hpoint, hpoint.filter_cons]
      simp only [takeWhile_filter hfraction hends, dropWhile_filter hfraction hends, hexponent,
        Bool.and_true, Bool.or_eq_true, Bool.not_eq_true', List.isEmpty_eq_false_iff]
      exact hnonempty

theorem isNumeric_of_numeral (hnumeral : Numeral (dropSign text)) : isNumeric text = true := by
  obtain ⟨coefficient, power, heq, hcoefficient, hpower⟩ := hnumeral.exists_coefficient
  obtain ⟨hends, hseparatePower, -⟩ := checks_of_exponent hpower
  -- every coefficient has a digit, on one side of the point at least
  have hdigit : ∃ c ∈ coefficient, c.isDigit = true := by
    rcases hcoefficient with hdigits | ⟨hwhole, hfraction, hne | hne⟩
    · exact hdigits.exists_digit
    · obtain ⟨c, hmem, hc⟩ := DigitPart.exists_digit ⟨hwhole, hne⟩
      exact ⟨c, List.mem_append_left _ hmem, hc⟩
    · obtain ⟨c, hmem, hc⟩ := DigitPart.exists_digit ⟨hfraction, hne⟩
      exact ⟨c, List.mem_append_right _ (List.mem_cons_of_mem _ hmem), hc⟩
  have hseparate : underscoresSeparate false text = true := by
    rw [← underscoresSeparate_dropSign, heq, ← hseparatePower]
    rcases hcoefficient with hdigits | ⟨hwhole, hfraction, -⟩
    · exact underscoresSeparate_append hdigits.1 hends
    · rw [List.append_assoc, List.cons_append,
        underscoresSeparate_append hwhole (.cons rfl (by decide))]
      exact underscoresSeparate_append hfraction hends
  have hdecimal : isDecimal (dropSign (text.filter (· != '_'))) = true := by
    rw [(dropSign_filter hseparate).1, heq]
    rcases hcoefficient with hdigits | hpointed
    · exact isDecimal_of_digitPart hdigits hpower
    · exact isDecimal_of_pointed hpointed hpower
  have hany : text.any Char.isDigit = true := by
    obtain ⟨c, hmem, hc⟩ := hdigit
    have hunsigned : c ∈ dropSign text := heq ▸ List.mem_append_left _ hmem
    exact List.any_eq_true.mpr ⟨c, mem_of_mem_dropSign hunsigned, hc⟩
  simp [isNumeric, isFloat, hany, hseparate, hdecimal]

/-- The numerals are the texts of this shape, with a sign or without. -/
theorem isNumeric_iff : isNumeric text = true ↔ Numeral (dropSign text) :=
  ⟨numeral_of_isNumeric, isNumeric_of_numeral⟩

/-! ## Floating point texts -/

theorem underscore_not_mem_of_isDigits (hdigits : isDigits text = true) : '_' ∉ text := by
  intro hmem
  have hall := (Bool.and_eq_true_iff.mp hdigits).2
  exact absurd (List.all_eq_true.mp hall '_' hmem) (by decide)

theorem underscore_not_mem_of_dropSign (hunsigned : '_' ∉ dropSign text) : '_' ∉ text := by
  intro hmem
  rcases mem_dropSign hmem with hplus | hminus | hrest
  · exact absurd hplus (by decide)
  · exact absurd hminus (by decide)
  · exact hunsigned hrest

theorem underscore_not_mem_of_isExponent (hexponent : isExponent text = true) : '_' ∉ text := by
  cases text with
  | nil => exact List.not_mem_nil
  | cons c rest =>
      rw [isExponent, Bool.and_eq_true, Bool.or_eq_true, beq_iff_eq, beq_iff_eq] at hexponent
      obtain ⟨hletter, hdigits⟩ := hexponent
      have hrest := underscore_not_mem_of_dropSign (underscore_not_mem_of_isDigits hdigits)
      rcases hletter with rfl | rfl <;> simpa using hrest

theorem underscore_not_mem_takeWhile (text : List Char) : '_' ∉ text.takeWhile Char.isDigit :=
  fun hmem => absurd (List.mem_takeWhile_imp hmem) (by decide)

theorem underscore_not_mem_of_isDecimal (hdecimal : isDecimal text = true) : '_' ∉ text := by
  rw [← List.takeWhile_append_dropWhile (p := Char.isDigit) (l := text), List.mem_append, not_or]
  refine ⟨underscore_not_mem_takeWhile text, ?_⟩
  unfold isDecimal at hdecimal
  simp only at hdecimal
  split at hdecimal
  next rest hrest =>
    rw [hrest, List.mem_cons, not_or]
    -- digits on both sides of the point, and an exponent
    refine ⟨by decide, ?_⟩
    rw [← List.takeWhile_append_dropWhile (p := Char.isDigit) (l := rest), List.mem_append, not_or]
    exact ⟨underscore_not_mem_takeWhile rest,
      underscore_not_mem_of_isExponent (Bool.and_eq_true_iff.mp hdecimal).2⟩
  next =>
    exact underscore_not_mem_of_isExponent (Bool.and_eq_true_iff.mp hdecimal).2

/-- The text of a floating point number has no underscores. -/
theorem underscore_not_mem_of_isFloat (hfloat : isFloat text = true) : '_' ∉ text := by
  apply underscore_not_mem_of_dropSign
  rcases Bool.or_eq_true_iff.mp hfloat with hdecimal | hword
  · exact underscore_not_mem_of_isDecimal hdecimal
  · intro hmem
    have hlower : '_' ∈ (dropSign text).map Char.toLower := List.mem_map.mpr ⟨'_', hmem, by decide⟩
    rw [isNumberWord, List.contains_iff_mem] at hword
    generalize (dropSign text).map Char.toLower = lower at hword hlower
    have hwords : ∀ word ∈ ["inf".toList, "infinity".toList, "nan".toList], '_' ∉ word := by decide
    exact hwords lower hword hlower

/-- Among the number literals the floating point texts are those without underscores. -/
theorem isFloat_eq_true_iff (hnumeric : isNumeric text = true) :
    isFloat text = true ↔ '_' ∉ text := by
  refine ⟨underscore_not_mem_of_isFloat, fun hunderscore => ?_⟩
  rw [isNumeric, Bool.and_eq_true] at hnumeric
  have hsame : text.filter (· != '_') = text :=
    List.filter_eq_self.mpr fun c hc => bne_iff_ne.mpr fun heq => hunderscore (heq ▸ hc)
  rw [hsame] at hnumeric
  exact hnumeric.2

end LineScript.Text
