import LineScript.Proofs.Text.ClosedRuns
import LineScript.Text.Length

/-!
# Tokens by a cursor over bytes

A text in UTF-8 can be cut between its characters only, and a cut inside of a character is an error
(`splitBytes?_eq_some_iff`).  The tokens of a text can be read by a cursor that counts bytes.  It
keeps the characters of the word that it is in, and gives the word out where a blank, a run or the
end of the text comes.  Main statement: it never cuts inside of a character, and reads the tokens
that the stretches of the text have (`tokens?_eq`).

## Strategy

The cursor is always behind some characters: its position is the length in bytes of a front part of
the text.  For each thing that can stand there one lemma says what the cursor does, in terms of a
longer front part (`tokens?_run`, `tokens?_backtick`, `tokens?_cons`, `tokens?_end`), and these are
the only places where bytes are counted.

The invariant is in `tokens?_append`: at the cursor, the characters that are kept are still to be
put in front of the stretches of what is behind it.  Its induction follows the stretches, which look
for runs in the same order as the cursor.
-/

namespace LineScript

open Text (byteLength)

namespace ExprTokens

namespace ByteCursor

variable {text front rest current : List Char} {c : Char}

/-- A text in front of a byte and behind it, unless the byte is inside of a character, or behind the
end of the text. -/
def splitBytes? (text : List Char) (bytes : Nat) : Option (List Char × List Char) :=
  if bytes = 0 then some ([], text)
  else
    match text with
    | [] => none
    | c :: rest =>
        if c.utf8Size ≤ bytes then
          (splitBytes? rest (bytes - c.utf8Size)).map fun (front, back) => (c :: front, back)
        else none

theorem splitBytes?_append (front back : List Char) :
    splitBytes? (front ++ back) (byteLength front) = some (front, back) := by
  induction front with
  | nil => rw [List.nil_append, Text.byteLength_nil, splitBytes?.eq_def, if_pos rfl]
  | cons c rest ih =>
      have hpos := c.utf8Size_pos
      rw [List.cons_append, splitBytes?, Text.byteLength_cons, if_neg (by omega),
        if_pos (Nat.le_add_right _ _), Nat.add_sub_cancel_left, ih]
      rfl

/-- A text can be cut behind each of its beginnings, and nowhere else. -/
theorem splitBytes?_eq_some_iff {bytes : Nat} {back : List Char} :
    splitBytes? text bytes = some (front, back) ↔
      text = front ++ back ∧ bytes = byteLength front := by
  constructor
  · intro hsplit
    fun_induction splitBytes? text bytes generalizing front with
    | case1 text =>
        cases hsplit
        exact ⟨rfl, rfl⟩
    | case2 => cases hsplit
    -- the first character fits into the bytes that are left
    | case3 bytes hbytes c rest hle ih =>
        obtain ⟨⟨inner, tail⟩, hinner, heq⟩ := Option.map_eq_some_iff.mp hsplit
        cases heq
        obtain ⟨rfl, hrest⟩ := ih hinner
        refine ⟨rfl, ?_⟩
        rw [Text.byteLength_cons]
        omega
    | case4 => cases hsplit
  · rintro ⟨rfl, rfl⟩
    exact splitBytes?_append front back

/-- How many bytes are in front of the first double backtick. -/
def findQuote? (text : List Char) : Option Nat :=
  (cutAtQuote text).map fun (inside, _) => byteLength inside

/-- The tokens behind a cursor, where the characters of an unfinished word are in front of it. -/
def tokens? (text : List Char) (cursor : Nat) (current : List Char) :
    Option (List (List Char)) :=
  if _h : cursor < byteLength text then do
    let (_, rest) ← splitBytes? text cursor
    if quote.isPrefixOf rest then
      let (_, behind) ← splitBytes? rest 2
      match findQuote? behind with
      | some found =>
          let (token, _) ← splitBytes? rest (found + 4)
          (tokens? text (cursor + (found + 4)) []).map (splitStructural current ++ token :: ·)
      | none => tokens? text (cursor + 1) (current ++ ['\x60'])
    else
      match rest with
      | [] => return splitStructural current
      | c :: _ =>
          have := c.utf8Size_pos
          if isSeparator c then
            (tokens? text (cursor + c.utf8Size) []).map (splitStructural current ++ ·)
          else tokens? text (cursor + c.utf8Size) (current ++ [c])
  else return splitStructural current
termination_by byteLength text - cursor

/-! ## What one step does -/

theorem lt_byteLength (front : List Char) (c : Char) (rest : List Char) :
    byteLength front < byteLength (front ++ c :: rest) := by
  have hpos := c.utf8Size_pos
  rw [Text.byteLength_append, Text.byteLength_cons]
  omega

theorem tokens?_end (text current : List Char) :
    tokens? text (byteLength text) current = some (splitStructural current) := by
  rw [tokens?, dif_neg (Nat.lt_irrefl _)]
  rfl

theorem isPrefixOf_quote (rest : List Char) :
    quote.isPrefixOf ('\x60' :: '\x60' :: rest) = true :=
  List.isPrefixOf_iff_prefix.mpr (List.prefix_append quote rest)

theorem splitBytes?_quote (rest : List Char) :
    splitBytes? ('\x60' :: '\x60' :: rest) 2 = some (quote, rest) :=
  splitBytes?_append quote rest

/-- At a run the unfinished word ends, and the cursor goes behind the run. -/
theorem tokens?_run {inside after : List Char} (hcut : cutAtQuote rest = some (inside, after))
    (front current : List Char) :
    tokens? (front ++ '\x60' :: '\x60' :: rest) (byteLength front) current =
      (tokens? (front ++ (quote ++ inside ++ quote) ++ after)
        (byteLength (front ++ (quote ++ inside ++ quote))) []).map
          (splitStructural current ++ (quote ++ inside ++ quote) :: ·) := by
  have hquote : byteLength quote = 2 := by decide
  have hfind : findQuote? rest = some (byteLength inside) := by
    rw [findQuote?, hcut]
    rfl
  -- two quotes of two bytes each, and what is between them
  have hrun : splitBytes? ('\x60' :: '\x60' :: rest) (byteLength inside + 4) =
      some (quote ++ inside ++ quote, after) := by
    refine splitBytes?_eq_some_iff.mpr ⟨?_, ?_⟩
    · rw [append_of_cutAtQuote hcut]
      simp [quote]
    · simp only [Text.byteLength_append, hquote]
      omega
  have hbehind : front ++ '\x60' :: '\x60' :: rest =
      front ++ (quote ++ inside ++ quote) ++ after := by
    rw [append_of_cutAtQuote hcut]
    simp [quote]
  rw [tokens?, dif_pos (lt_byteLength front _ _), splitBytes?_append]
  simp only [Option.bind_eq_bind, Option.bind_some, if_pos (isPrefixOf_quote rest),
    splitBytes?_quote, hfind, hrun]
  rw [hbehind]
  simp only [Text.byteLength_append, hquote]
  congr 2
  omega

/-- A backtick that opens no run goes to the unfinished word. -/
theorem tokens?_backtick (hcut : cutAtQuote rest = none) (front current : List Char) :
    tokens? (front ++ '\x60' :: '\x60' :: rest) (byteLength front) current =
      tokens? (front ++ ['\x60'] ++ '\x60' :: rest) (byteLength (front ++ ['\x60']))
        (current ++ ['\x60']) := by
  have hfind : findQuote? rest = none := by
    rw [findQuote?, hcut]
    rfl
  rw [tokens?, dif_pos (lt_byteLength front _ _), splitBytes?_append]
  simp only [Option.bind_eq_bind, Option.bind_some, if_pos (isPrefixOf_quote rest),
    splitBytes?_quote, hfind]
  rw [← List.append_cons, Text.byteLength_append]
  rfl

/-- Any other character ends the unfinished word, or goes to it. -/
theorem tokens?_cons (hquote : ∀ more, c = '\x60' → rest = '\x60' :: more → False)
    (front current : List Char) :
    tokens? (front ++ c :: rest) (byteLength front) current =
      if isSeparator c then
        (tokens? (front ++ [c] ++ rest) (byteLength (front ++ [c])) []).map
          (splitStructural current ++ ·)
      else tokens? (front ++ [c] ++ rest) (byteLength (front ++ [c])) (current ++ [c]) := by
  -- no run begins here
  have hopens : ¬ quote.isPrefixOf (c :: rest) = true := by
    rw [List.isPrefixOf_iff_prefix]
    exact not_quote_isPrefix hquote
  rw [tokens?, dif_pos (lt_byteLength front _ _), splitBytes?_append]
  simp only [Option.bind_eq_bind, Option.bind_some, if_neg hopens]
  rw [← List.append_cons, Text.byteLength_append]
  rfl

/-! ## The unfinished word -/

/-- Characters are a stretch of their own in front of a run, and at the end. -/
theorem foldr_push {stretches : List Stretch}
    (hpush : ∀ c, Stretch.push c stretches = .plain [c] :: stretches) :
    current.foldr Stretch.push stretches = Stretch.ofPlain current ++ stretches := by
  induction current with
  | nil => rfl
  | cons c more ih =>
      rw [List.foldr_cons, ih]
      cases more with
      | nil => exact hpush c
      | cons d others => rfl

theorem foldr_push_plain (text : List Char) (others : List Stretch) :
    current.foldr Stretch.push (.plain text :: others) = .plain (current ++ text) :: others := by
  induction current with
  | nil => rfl
  | cons c more ih => rw [List.foldr_cons, ih]; rfl

theorem tokens_ofPlain_of_not_isSeparator (hcurrent : ∀ c ∈ current, isSeparator c = false) :
    (Stretch.ofPlain current).flatMap Stretch.tokens = splitStructural current := by
  rw [Stretch.tokens_ofPlain, List.splitOnP_eq_singleton hcurrent, List.flatMap_singleton]

/-- At the cursor, the characters of the unfinished word are to be put in front of the stretches of
what is behind it. -/
theorem tokens?_append (front rest : List Char) (hcurrent : ∀ c ∈ current, isSeparator c = false) :
    tokens? (front ++ rest) (byteLength front) current =
      some ((current.foldr Stretch.push (stretches rest)).flatMap Stretch.tokens) := by
  fun_induction stretches rest generalizing front current with
  | case1 =>
      rw [List.append_nil, tokens?_end, foldr_push (fun _ => rfl), List.append_nil,
        tokens_ofPlain_of_not_isSeparator hcurrent]
  | case2 rest inside after hcut _ ih =>
      have hfoldr : current.foldr Stretch.push (.quoted inside :: stretches after) =
          Stretch.ofPlain current ++ .quoted inside :: stretches after :=
        foldr_push fun _ => rfl
      -- the characters that are kept end in front of the run
      rw [tokens?_run hcut, ih _ (List.forall_mem_nil _), hfoldr, List.flatMap_append,
        tokens_ofPlain_of_not_isSeparator hcurrent]
      rfl
  | case3 rest hcut ih =>
      rw [tokens?_backtick hcut, ih, List.foldr_append]
      · rfl
      · exact List.forall_mem_append.mpr ⟨hcurrent, List.forall_mem_singleton.mpr (by decide)⟩
  | case4 c rest hquote ih =>
      rw [tokens?_cons hquote]
      split
      next hc =>
        -- a separator ends the characters that are kept
        obtain ⟨text, others, hpush, htokens⟩ := exists_push c (stretches rest)
        rw [ih _ (List.forall_mem_nil _), List.foldr_nil, htokens, Option.map_some, hpush,
          foldr_push_plain, List.flatMap_cons, Stretch.tokens, List.splitOnP_append_cons _ _ hc,
          List.splitOnP_eq_singleton hcurrent, List.flatMap_append, List.flatMap_singleton,
          List.append_assoc]
      next hc =>
        rw [ih, List.foldr_append]
        · rfl
        · exact List.forall_mem_append.mpr
            ⟨hcurrent, List.forall_mem_singleton.mpr (Bool.eq_false_iff.mpr hc)⟩

/-- The cursor gets through every text, and reads its tokens. -/
theorem tokens?_eq (text : List Char) : tokens? text 0 [] = some (ofText text) :=
  tokens?_append [] text (List.forall_mem_nil _)

end ByteCursor

end ExprTokens

end LineScript
