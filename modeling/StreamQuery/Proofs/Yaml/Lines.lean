import StreamQuery.Proofs.Yaml.Words
set_option autoImplicit false

/-!
# Lines

A mapping that is written line by line, each entry a word, a colon, a blank and a word, with empty
lines and comments anywhere between.  The scanner takes three tokens for every entry
(`Scanner.takeTokens_entry`) and none for another line, so what it gives for the whole text is known
by the entries alone (`Scanner.takeTokens_lines`).
-/

namespace StreamQuery.Yaml

namespace Scanner

variable {s t : Scanner} {n : Nat} {c : Char} {rest more key value : List Char}

/-! ## One token -/

/-- What comes to the same token is scanned alike. -/
theorem takeTokens_congr (h : s.settle = t.settle) (n : Nat) :
    takeTokens (n + 1) s = takeTokens (n + 1) t := by
  rw [takeTokens_succ, takeTokens_succ, h]

/-- A token is taken where nothing has to be given up or closed before. -/
theorem takeTokens_token (hsettle : s.settle = t) (hrest : t.place.rest = c :: rest)
    (hkey : t.dropStaleKey = some t) (hblock : t.closeBlock t.place.column = t) (n : Nat) :
    takeTokens (n + 1) s = t.takeToken c rest >>= takeTokens n := by
  rw [takeTokens_succ, hsettle, hkey]
  simp only [Option.bind_eq_bind, Option.bind_some, hrest, hblock]

/-- A mapping that was opened in the first column is closed in no other. -/
theorem closeBlock_of_first (hblock : s.block = none ∨ s.block = some 0) (column : Nat) :
    s.closeBlock column = s := by
  unfold closeBlock
  refine if_neg fun h => ?_
  rcases hblock with hnone | hfirst
  · rw [hnone] at h
    exact nomatch h.2
  · rw [hfirst, Option.any_some, decide_eq_true_eq] at h
    exact Nat.not_lt_zero _ h.2

/-- The first character of a word announces a plain scalar. -/
theorem takeToken_word (hstart : startsWord c = true) (hplain : isPlain c = true)
    (hrest : s.place.rest = c :: rest) : s.takeToken c rest = s.plain := by
  simp only [startsWord, Bool.and_eq_true, Bool.not_eq_true', bne_iff_ne] at hstart
  obtain ⟨⟨⟨⟨hreserved, hhyphen⟩, hquestion⟩, hdot⟩, -⟩ := hstart
  simp only [isPlain, Bool.and_eq_true, Bool.not_eq_true', bne_iff_ne] at hplain
  obtain ⟨⟨hblank, hbreak⟩, hcolon⟩ := hplain
  have hne {x : Char} (hx : isReserved x = true) : c ≠ x := by
    rintro rfl
    rw [hx] at hreserved
    cases hreserved
  have hmark {mark : Char} (hmark : c ≠ mark) : s.place.atMark mark = false := by
    unfold Cursor.atMark
    rw [hrest]
    simp [hmark]
  have hplain : s.startsPlain c rest = true := by
    unfold startsPlain
    rw [beq_eq_false_iff_ne.2 hhyphen, beq_eq_false_iff_ne.2 hquestion,
      beq_eq_false_iff_ne.2 hcolon, hreserved, hblank, hbreak]
    rfl
  unfold takeToken
  rw [if_neg fun h => hne rfl h.2, hmark hhyphen, hmark hdot, if_neg Bool.false_ne_true,
    if_neg Bool.false_ne_true, if_neg (hne rfl), if_neg (hne rfl), if_neg (hne rfl),
    if_neg fun h => hquestion h.1, if_neg fun h => hcolon h.1, if_neg (hne rfl), if_neg (hne rfl),
    if_neg (hne rfl), if_neg fun h => hne rfl h.1, if_neg fun h => hne rfl h.1,
    if_neg fun h => h.elim (hne rfl) (hne rfl), hplain, if_pos rfl]

/-- A colon before a blank comes before a value. -/
theorem takeToken_colon (hrest : s.place.rest = ':' :: ' ' :: more) :
    s.takeToken ':' (' ' :: more) = s.announceValue := by
  have hmark {mark : Char} (hmark : ':' ≠ mark) : s.place.atMark mark = false := by
    unfold Cursor.atMark
    rw [hrest]
    simp [hmark]
  have hhyphen : s.place.atMark '-' = false := hmark (by decide)
  have hdot : s.place.atMark '.' = false := hmark (by decide)
  unfold takeToken
  simp [hhyphen, hdot, atGap, isBlank]

/-! ## One entry -/

/-- The scanner at the start of a line. -/
structure AtLine (s : Scanner) (text : List Char) : Prop where
  rest : s.place.rest = text
  column : s.place.column = 0
  flow : s.flow = false
  keyAllowed : s.keyAllowed = true
  keyStart : s.keyStart = none
  block : s.block = none ∨ s.block = some 0

/-- The token that opens a mapping where none is open. -/
def opening : Option Nat → List Token
  | none => [.blockStart]
  | some _ => []

theorem reverse_opening (block : Option Nat) : (opening block).reverse = opening block := by
  cases block <;> rfl

/-- The tokens of an entry. -/
def entryTokens (key value : List Char) : List Token :=
  [.key, .scalar key .plain, .value, .scalar value .plain]

/-- The scanner after the word of a key. -/
def afterKey (s : Scanner) (key : List Char) : Scanner :=
  { s with
    place := s.place.skip key.length
    tokens := .scalar key .plain :: s.tokens
    keyAllowed := false
    keyStart := some ⟨s.tokens.length, s.place.index, s.place.line, 0, s.block == some 0⟩ }

/-- The scanner after a key and its colon. -/
def afterColon (s : Scanner) (key : List Char) : Scanner :=
  { s with
    place := s.place.skip (key.length + 1)
    tokens := [.value, .scalar key .plain, .key] ++ opening s.block ++ s.tokens
    block := some 0
    keyAllowed := false
    keyStart := none }

/-- The scanner on the line after an entry. -/
def afterEntry (s : Scanner) (key value more : List Char) : Scanner :=
  { s with
    place := ⟨more, s.place.index + key.length + 2 + value.length + 1, s.place.line + 1, 0⟩
    tokens := (entryTokens key value).reverse ++ opening s.block ++ s.tokens
    block := some 0
    keyAllowed := true
    keyStart := none }

/-- A scanner that stands at a word is at its next token. -/
theorem settle_word (hword : IsWord value) (hrest : s.place.rest = value ++ more) :
    s.settle = s := by
  obtain ⟨c, rest, rfl, hstart, hplain⟩ := hword.exists_cons
  obtain ⟨htoken, hbreak⟩ := startsToken_of_startsWord hstart hplain
  refine settle_of_head ?_
  rw [hrest, List.cons_append, List.head?_cons, Option.all_some, htoken, hbreak]
  rfl

/-- The key of an entry is taken. -/
theorem takeTokens_key (h : s.AtLine (key ++ ':' :: ' ' :: more)) (hkey : IsWord key) (n : Nat) :
    takeTokens (n + 1) s = takeTokens n (s.afterKey key) := by
  have hnote : s.noteKey = some { s with
      keyStart := some ⟨s.tokens.length, s.place.index, s.place.line, 0, s.block == some 0⟩ } := by
    unfold noteKey dropKey
    rw [if_pos h.keyAllowed, h.keyStart]
    simp only [Option.any_none, Bool.false_eq_true, if_false, Option.map_some, h.flow, h.column,
      Bool.not_false, Bool.true_and]
  have htoken : s.plain = some (s.afterKey key) := by
    unfold plain
    rw [hnote]
    simp only [Option.bind_eq_bind, Option.bind_some, h.flow, takePlain_key hkey h.rest]
    simp only [emitAt, allowKey, afterKey, ← h.flow]
    rfl
  have hstale : s.dropStaleKey = some s := by
    unfold dropStaleKey
    rw [h.keyStart]
  obtain ⟨c, rest, hcons, hstart, hplain⟩ := hkey.exists_cons
  have hrest : s.place.rest = c :: (rest ++ ':' :: ' ' :: more) := by
    rw [h.rest, hcons]
    rfl
  rw [takeTokens_token (settle_word hkey h.rest) hrest hstale (closeBlock_of_first h.block _),
    takeToken_word hstart hplain hrest, htoken]
  rfl

/-- Tokens are put in front of the last one. -/
theorem insertAt_of_tokens {t : Token} {ts : List Token} (h : s.tokens = t :: ts)
    (us : List Token) :
    s.insertAt ts.length us = { s with tokens := t :: us.reverse ++ ts } := by
  have hlater : s.tokens.length - ts.length = 1 := by
    rw [h, List.length_cons]
    omega
  unfold insertAt
  rw [hlater, h]
  rfl

/-- The token of a key is put in front of its word, and opens a mapping where none is open. -/
theorem insertEntry_afterKey (h : s.AtLine (key ++ ':' :: ' ' :: more)) :
    (s.afterKey key).insertEntry 0 s.tokens.length [.key] = some { s.afterKey key with
      tokens := [.scalar key .plain, .key] ++ opening s.block ++ s.tokens
      block := some 0 } := by
  have hflow : (s.afterKey key).flow = false := h.flow
  have htokens : (s.afterKey key).tokens = .scalar key .plain :: s.tokens := rfl
  unfold insertEntry
  rw [if_neg (by rw [hflow]; exact Bool.false_ne_true), insertAt_of_tokens htokens,
    insertAt_of_tokens htokens]
  rcases h.block with hblock | hblock
  · have hnone : (s.afterKey key).block = none := hblock
    rw [hnone, hblock]
    rfl
  · have hsome : (s.afterKey key).block = some 0 := hblock
    rw [hsome, hblock]
    rfl

/-- The colon of an entry is taken. -/
theorem takeTokens_colon (h : s.AtLine (key ++ ':' :: ' ' :: more)) (hwidth : key.length ≤ keyWidth)
    (n : Nat) : takeTokens (n + 1) (s.afterKey key) = takeTokens n (s.afterColon key) := by
  have hrest : (s.afterKey key).place.rest = ':' :: ' ' :: more := by
    show (s.place.skip key.length).rest = _
    rw [Cursor.skip_rest, h.rest, List.drop_left]
  have hblock : (s.afterKey key).block = none ∨ (s.afterKey key).block = some 0 := h.block
  have hsettle : (s.afterKey key).settle = s.afterKey key := settle_of_head (by rw [hrest]; rfl)
  have hstale : (s.afterKey key).dropStaleKey = some (s.afterKey key) := by
    unfold dropStaleKey
    refine if_neg ?_
    show ¬ (s.place.line < s.place.line ∨ s.place.index + keyWidth < s.place.index + key.length)
    omega
  have htoken : (s.afterKey key).announceValue = some (s.afterColon key) := by
    show ((s.afterKey key).insertEntry 0 s.tokens.length [.key] >>= _) = _
    rw [insertEntry_afterKey h]
    unfold afterColon
    rw [← Cursor.skip_skip]
    rfl
  rw [takeTokens_token hsettle hrest hstale (closeBlock_of_first hblock _), takeToken_colon hrest,
    htoken]
  rfl

/-- The value of an entry is taken, with the rest of its line. -/
theorem takeTokens_value (h : s.AtLine (key ++ ':' :: ' ' :: (value ++ '\n' :: more)))
    (hvalue : IsWord value) (hmore : LineStarts more) (n : Nat) :
    takeTokens (n + 2) (s.afterColon key) = takeTokens (n + 1) (s.afterEntry key value more) := by
  obtain ⟨c, rest, hcons, hstart, hplain⟩ := hvalue.exists_cons
  obtain ⟨hc, hbreak⟩ := startsToken_of_startsWord hstart hplain
  have hcolon : (s.afterColon key).place.rest = ' ' :: (value ++ '\n' :: more) := by
    show (s.place.skip (key.length + 1)).rest = _
    rw [Cursor.skip_rest, h.rest, List.drop_length_add_append]
    rfl
  have hplace : (s.afterColon key).place.skip 1 = s.place.skip (key.length + 2) :=
    Cursor.skip_skip s.place (key.length + 1) 1
  have hrest : (s.place.skip (key.length + 2)).rest = value ++ '\n' :: more := by
    rw [← hplace, Cursor.skip_rest, hcolon]
    rfl
  have hsettle : (s.afterColon key).settle
      = { s.afterColon key with place := s.place.skip (key.length + 2) } := by
    rw [hcons] at hcolon
    rw [settle_space hcolon hc hbreak, hplace]
  have htoken : plain { s.afterColon key with place := s.place.skip (key.length + 2) }
      = some { s.afterEntry key value more with
        place := pastBreaks (s.place.index + key.length + 2 + value.length + 1) (s.place.line + 1) 0
          more } := by
    show (takePlain s.flow 1 (s.place.skip (key.length + 2)) >>= _) = _
    rw [h.flow, takePlain_value hvalue hrest hmore Nat.one_pos]
    rfl
  rw [hcons] at hrest
  rw [takeTokens_token hsettle hrest rfl (closeBlock_of_first (.inr rfl) _),
    takeToken_word hstart hplain hrest, htoken]
  exact takeTokens_congr
    (settle_pastBreaks (s := s.afterEntry key value more) h.flow rfl _ _ _) n

/-- An entry is taken. -/
theorem takeTokens_entry (h : s.AtLine (key ++ ':' :: ' ' :: (value ++ '\n' :: more)))
    (hkey : IsWord key) (hwidth : key.length ≤ keyWidth) (hvalue : IsWord value)
    (hmore : LineStarts more) (n : Nat) :
    takeTokens (n + 4) s = takeTokens (n + 1) (s.afterEntry key value more) := by
  rw [takeTokens_key h hkey, takeTokens_colon h hwidth, takeTokens_value h hvalue hmore]

theorem AtLine.afterEntry (h : s.AtLine (key ++ ':' :: ' ' :: (value ++ '\n' :: more))) :
    (s.afterEntry key value more).AtLine more where
  rest := rfl
  column := rfl
  flow := h.flow
  keyAllowed := rfl
  keyStart := rfl
  block := .inr rfl

theorem dropKey_of_none (h : s.keyStart = none) : s.dropKey = some s := by
  obtain ⟨place, tokens, flow, block, keyAllowed, keyStart⟩ := s
  obtain rfl : keyStart = none := h
  rfl

/-- At the end of the text an open mapping is closed. -/
theorem takeTokens_end (h : s.AtLine []) (n : Nat) : takeTokens (n + 1) s
    = some (s.tokens.reverse ++ if s.block = none then [] else [.blockEnd]) := by
  have hsettle : s.settle = s := settle_of_head (by rw [h.rest]; rfl)
  have hstale : s.dropStaleKey = some s := by
    unfold dropStaleKey
    rw [h.keyStart]
  rw [takeTokens_succ, hsettle, hstale]
  simp only [Option.bind_eq_bind, Option.bind_some, h.rest]
  rcases h.block with hblock | hblock
  · have hclose : s.closeAll = s := by
      unfold closeAll
      rw [hblock]
      exact if_neg fun h => nomatch h.2
    rw [hclose, dropKey_of_none h.keyStart, hblock, if_pos rfl, List.append_nil]
    rfl
  · have hclose : s.closeAll = { s.emit .blockEnd with block := none } := by
      unfold closeAll
      exact if_pos ⟨h.flow, by rw [hblock]; rfl⟩
    have hkey : s.closeAll.keyStart = none := by
      rw [hclose]
      exact h.keyStart
    rw [dropKey_of_none hkey, hclose, hblock, if_neg (by exact nofun)]
    exact congrArg some (List.reverse_cons ..)

end Scanner

/-! ## A text of lines -/

/-- A line of a mapping. -/
inductive Line where
  | entry (key value : List Char)
  | comment (text : List Char)
  | empty
  deriving DecidableEq

namespace Line

/-- The text of a line. -/
def text : Line → List Char
  | entry key value => key ++ ':' :: ' ' :: (value ++ ['\n'])
  | comment text => '#' :: (text ++ ['\n'])
  | empty => ['\n']

/-- The entry on a line. -/
def entry? : Line → Option (List Char × List Char)
  | entry key value => some (key, value)
  | _ => none

/-- A line that is read as it was meant: keys and values are words, no key is too long, and a
comment has no line break in it. -/
def Fits : Line → Prop
  | entry key value => IsWord key ∧ key.length ≤ Scanner.keyWidth ∧ IsWord value
  | comment text => ∀ c ∈ text, isBreak c = false
  | empty => True

/-- The text of lines. -/
def textOf (ls : List Line) : List Char := ls.flatMap text

theorem textOf_cons (l : Line) (ls : List Line) : textOf (l :: ls) = l.text ++ textOf ls := rfl

/-- No line starts with a blank. -/
theorem lineStarts_textOf {ls : List Line} (h : ∀ l ∈ ls, l.Fits) : LineStarts (textOf ls) := by
  induction ls with
  | nil => rfl
  | cons l ls ih =>
    have hstarts {c : Char} {rest : List Char} (hblank : isBlank c = false)
        (hbreak : isBreak c = false) : LineStarts (c :: rest) := by
      have hne : c ≠ '\n' := by
        rintro rfl
        cases hbreak
      unfold LineStarts
      rw [List.dropWhile_cons_of_neg (by simpa using hne), List.head?_cons, Option.all_some, hblank,
        hbreak]
      rfl
    cases l with
    | entry key value =>
      obtain ⟨hkey, -, -⟩ := h _ List.mem_cons_self
      obtain ⟨c, rest, rfl, -, hplain⟩ := hkey.exists_cons
      simp only [isPlain, Bool.and_eq_true, Bool.not_eq_true'] at hplain
      exact hstarts hplain.1.1 hplain.1.2
    | comment text => exact hstarts rfl rfl
    | empty => exact ih fun l hl => h l (List.mem_cons_of_mem _ hl)

end Line

/-- The tokens of entries up to the end of their mapping. -/
def bodyTokens (entries : List (List Char × List Char)) : List Token :=
  entries.flatMap (fun e => Scanner.entryTokens e.1 e.2) ++ [.blockEnd]

/-- The tokens of a mapping, which is opened unless one is open or there is no entry. -/
def mappingTokens : Option Nat → List (List Char × List Char) → List Token
  | none, [] => []
  | block, entries => Scanner.opening block ++ bodyTokens entries

theorem bodyTokens_cons (e : List Char × List Char) (entries : List (List Char × List Char)) :
    bodyTokens (e :: entries) = Scanner.entryTokens e.1 e.2 ++ bodyTokens entries := by
  unfold bodyTokens
  rw [List.flatMap_cons, List.append_assoc]

theorem length_lt_bodyTokens (entries : List (List Char × List Char)) :
    entries.length < (bodyTokens entries).length := by
  induction entries with
  | nil => exact Nat.one_pos
  | cons e entries ih =>
    rw [bodyTokens_cons, List.length_cons, List.length_append]
    show entries.length + 1 < 4 + (bodyTokens entries).length
    omega

theorem mappingTokens_cons {block : Option Nat} (hblock : block = none ∨ block = some 0)
    (e : List Char × List Char) (entries : List (List Char × List Char)) :
    mappingTokens block (e :: entries) = Scanner.opening block ++ Scanner.entryTokens e.1 e.2 ++
      mappingTokens (some 0) entries := by
  rcases hblock with rfl | rfl <;> simp [mappingTokens, Scanner.opening, bodyTokens_cons]

/-- Lines are scanned to the tokens of their entries. -/
theorem Scanner.takeTokens_lines {ls : List Line} (hls : ∀ l ∈ ls, l.Fits) {s : Scanner} {n : Nat}
    (h : s.AtLine (Line.textOf ls)) (hn : (Line.textOf ls).length < n) :
    takeTokens n s =
      some (s.tokens.reverse ++ mappingTokens s.block (ls.filterMap Line.entry?)) := by
  induction ls generalizing s n with
  | nil =>
    obtain ⟨m, rfl⟩ : ∃ m, n = m + 1 := ⟨n - 1, by omega⟩
    rw [takeTokens_end h]
    rcases h.block with hblock | hblock <;> rw [hblock] <;> rfl
  | cons l ls ih =>
    have hrest : ∀ l ∈ ls, l.Fits := fun l hl => hls l (List.mem_cons_of_mem _ hl)
    rw [Line.textOf_cons] at h hn
    obtain ⟨m, rfl⟩ : ∃ m, n = m + 1 := ⟨n - 1, by omega⟩
    cases l with
    | empty =>
      rw [takeTokens_congr (settle_break h.rest h.flow)]
      refine ih hrest ⟨rfl, rfl, h.flow, rfl, h.keyStart, h.block⟩ ?_
      rw [List.length_append] at hn
      omega
    | comment text =>
      have htext : s.place.rest = '#' :: (text ++ '\n' :: Line.textOf ls) := by
        rw [h.rest]
        simp [Line.text]
      rw [takeTokens_congr (settle_comment htext (hls _ List.mem_cons_self) h.flow)]
      refine ih hrest ⟨rfl, rfl, h.flow, rfl, h.keyStart, h.block⟩ ?_
      rw [List.length_append] at hn
      omega
    | entry key value =>
      obtain ⟨hkey, hwidth, hvalue⟩ := hls _ List.mem_cons_self
      have hentry : s.AtLine (key ++ ':' :: ' ' :: (value ++ '\n' :: Line.textOf ls)) := by
        refine ⟨?_, h.column, h.flow, h.keyAllowed, h.keyStart, h.block⟩
        rw [h.rest]
        simp [Line.text]
      have hlength : (Line.entry key value).text.length = key.length + value.length + 3 := by
        simp [Line.text]
        omega
      rw [List.length_append, hlength] at hn
      have hkeyLength := List.length_pos_iff.2 hkey.ne_nil
      obtain ⟨k, rfl⟩ : ∃ k, m = k + 3 := ⟨m - 3, by omega⟩
      rw [takeTokens_entry hentry hkey hwidth hvalue (Line.lineStarts_textOf hrest),
        ih hrest hentry.afterEntry (by omega)]
      have hentries : (Line.entry key value :: ls).filterMap Line.entry?
          = (key, value) :: ls.filterMap Line.entry? := rfl
      rw [hentries, mappingTokens_cons h.block]
      simp [afterEntry, reverse_opening]

end StreamQuery.Yaml
