import StreamQuery.Proofs.Yaml.Gaps
set_option autoImplicit false

/-!
# Words

A word is a plain scalar without blanks and colons.  It is read as it stands, as the key before a
colon (`takePlain_key`) and as the value at the end of a line (`takePlain_value`); reading a value
goes on past the empty lines behind it, where the scanner would go anyway
(`Scanner.settle_pastBreaks`).
-/

namespace StreamQuery.Yaml

open Scanner (isReserved startsToken)

/-! ## Words -/

/-- A character inside a word. -/
def isPlain (c : Char) : Bool := !isBlank c && !isBreak c && c != ':'

/-- A character that starts a word; the marks of documents start with others. -/
def startsWord (c : Char) : Bool :=
  !isReserved c && c != '-' && c != '?' && c != '.' && c != '\ufeff'

/-- A word of a plain scalar. -/
structure IsWord (cs : List Char) : Prop where
  head : cs.head?.any startsWord = true
  plain : ∀ c ∈ cs, isPlain c = true

variable {p : Cursor} {word more : List Char} {least : Nat}

theorem IsWord.exists_cons (h : IsWord word) :
    ∃ c rest, word = c :: rest ∧ startsWord c = true ∧ isPlain c = true := by
  cases word with
  | nil => cases h.head
  | cons c rest => exact ⟨c, rest, rfl, h.head, h.plain c List.mem_cons_self⟩

theorem IsWord.ne_nil (h : IsWord word) : word ≠ [] := by
  obtain ⟨c, rest, rfl, -⟩ := h.exists_cons
  exact List.cons_ne_nil c rest

/-- The first character of a word starts a token. -/
theorem startsToken_of_startsWord {c : Char} (hstart : startsWord c = true)
    (hplain : isPlain c = true) : startsToken c = true ∧ isBreak c = false := by
  simp only [startsWord, Bool.and_eq_true, Bool.not_eq_true', bne_iff_ne] at hstart
  simp only [isPlain, Bool.and_eq_true, Bool.not_eq_true', bne_iff_ne] at hplain
  have hhash : c ≠ '#' := by
    rintro rfl
    exact nomatch hstart.1.1.1.1
  simp [startsToken, hplain.1.1, hplain.1.2, hhash, hstart.2]

/-- A word ends where what follows is no part of one. -/
theorem plainWord_append (hword : ∀ c ∈ word, isPlain c = true)
    (hmore : plainWord false more = some []) : plainWord false (word ++ more) = some word := by
  induction word with
  | nil => exact hmore
  | cons c word ih =>
    have hc := hword c List.mem_cons_self
    simp only [isPlain, Bool.and_eq_true, Bool.not_eq_true', bne_iff_ne] at hc
    obtain ⟨⟨hblank, hbreak⟩, hcolon⟩ := hc
    have hnot : (c == ':') = false := beq_eq_false_iff_ne.2 hcolon
    rw [List.cons_append, plainWord, ih fun c hc => hword c (List.mem_cons_of_mem _ hc)]
    simp [hblank, hbreak, hnot]

theorem plainWord_colon (more : List Char) : plainWord false (':' :: ' ' :: more) = some [] := rfl

theorem plainWord_newline (more : List Char) : plainWord false ('\n' :: more) = some [] := rfl

/-! ## Empty lines behind a word -/

/-- The place after empty lines. -/
def pastBreaks (index line column : Nat) : List Char → Cursor
  | '\n' :: rest => pastBreaks (index + 1) (line + 1) 0 rest
  | rest => ⟨rest, index, line, column⟩

/-- What follows after empty lines starts no gap. -/
def LineStarts (cs : List Char) : Prop :=
  (cs.dropWhile (· == '\n')).head?.all (fun c => !isBlank c && !isBreak c) = true

theorem pastBreaks_of_ne {c : Char} (hc : c ≠ '\n') (index line column : Nat) (rest : List Char) :
    pastBreaks index line column (c :: rest) = ⟨c :: rest, index, line, column⟩ := by
  unfold pastBreaks
  split
  · rename_i h
    exact absurd (List.cons.inj h).1 hc
  · rfl

theorem pastBreaks_column (index line : Nat) (rest : List Char) :
    (pastBreaks index line 0 rest).column = 0 := by
  induction rest generalizing index line with
  | nil => rfl
  | cons c rest ih =>
    by_cases hc : c = '\n'
    · subst hc
      exact ih (index + 1) (line + 1)
    · rw [pastBreaks_of_ne hc]

theorem LineStarts.of_newline (h : LineStarts ('\n' :: more)) : LineStarts more := h

theorem LineStarts.head {c : Char} (h : LineStarts (c :: more)) (hc : c ≠ '\n') :
    isBlank c = false ∧ isBreak c = false := by
  unfold LineStarts at h
  rw [List.dropWhile_cons_of_neg (by simpa using hc), List.head?_cons, Option.all_some,
    Bool.and_eq_true, Bool.not_eq_true', Bool.not_eq_true'] at h
  exact h

/-- A gap that starts at the end of a line has the empty lines behind it. -/
theorem takeFrom_newlines {gap : Gap} (hbroken : gap.broken = true) {index line : Nat}
    (hmore : LineStarts more) : ∃ gap', gap'.broken = true ∧
      Gap.takeFrom least gap index line 0 more = some (gap', pastBreaks index line 0 more) := by
  induction more generalizing gap index line with
  | nil => exact ⟨gap, hbroken, rfl⟩
  | cons c more ih =>
    by_cases hc : c = '\n'
    · subst hc
      have hadd : (gap.addBreak (breakText '\n')).broken = true := by
        unfold Gap.addBreak
        rw [if_pos hbroken]
        exact hbroken
      exact ih hadd hmore.of_newline
    · obtain ⟨hblank, hbreak⟩ := hmore.head hc
      refine ⟨gap, hbroken, ?_⟩
      rw [pastBreaks_of_ne hc]
      unfold Gap.takeFrom
      split
      · rename_i h
        obtain ⟨rfl, -⟩ := List.cons.inj h
        cases hbreak
      · rename_i h
        obtain ⟨rfl, rfl⟩ := List.cons.inj h
        rw [hblank, hbreak, if_neg Bool.false_ne_true, if_neg Bool.false_ne_true]
      · rename_i h
        cases h

variable (least) in
/-- The gap at the end of a line. -/
theorem take_newline (hrest : p.rest = '\n' :: more) (hmore : LineStarts more) :
    ∃ gap, gap.broken = true ∧ Gap.none.take least p
      = some (gap, pastBreaks (p.index + 1) (p.line + 1) 0 more) := by
  have hbroken : (Gap.none.addBreak (breakText '\n')).broken = true := rfl
  unfold Gap.take
  rw [hrest]
  exact takeFrom_newlines hbroken hmore

/-- Empty lines are nothing to the scanner. -/
theorem Scanner.settle_pastBreaks {s : Scanner} (hflow : s.flow = false)
    (hkey : s.keyAllowed = true) (index line : Nat) (rest : List Char) :
    settle { s with place := pastBreaks index line 0 rest }
      = settle { s with place := ⟨rest, index, line, 0⟩ } := by
  induction rest generalizing index line with
  | nil => rfl
  | cons c rest ih =>
    by_cases hc : c = '\n'
    · subst hc
      have hbreak :=
        settle_break (s := { s with place := ⟨'\n' :: rest, index, line, 0⟩ }) rfl hflow
      rw [hbreak, ← hkey]
      exact ih (index + 1) (line + 1)
    · rw [pastBreaks_of_ne hc]

/-! ## Plain scalars -/

/-- A word marks no document and starts no comment. -/
theorem IsWord.not_ended (hword : IsWord word) (hrest : p.rest = word ++ more) :
    ¬ (p.atDocumentMark = true ∨ p.rest.head? = some '#') := by
  obtain ⟨c, rest, rfl, hstart, -⟩ := hword.exists_cons
  simp only [startsWord, Bool.and_eq_true, Bool.not_eq_true', bne_iff_ne] at hstart
  obtain ⟨⟨⟨⟨hreserved, hhyphen⟩, -⟩, hdot⟩, -⟩ := hstart
  have hmark {mark : Char} (hne : c ≠ mark) : p.atMark mark = false := by
    unfold Cursor.atMark
    rw [hrest]
    simp [hne]
  rintro (hended | hhash)
  · unfold Cursor.atDocumentMark at hended
    rw [hmark hhyphen, hmark hdot] at hended
    cases hended
  · rw [hrest] at hhash
    obtain rfl := Option.some.inj hhash
    cases hreserved

/-- A plain scalar starts with the word at its front. -/
theorem takePlainWords_word (hword : IsWord word) (hrest : p.rest = word ++ more)
    (hmore : plainWord false more = some []) (n : Nat) :
    takePlainWords false least (n + 1) Gap.none p =
      if atGap more ∧ more ≠ [] then do
        let (gap, q) ← Gap.none.take least (p.skip word.length)
        if q.column < least then return (word, q, gap.broken)
        let (text, q, broken) ← takePlainWords false least n gap q
        return (word ++ text, q, broken)
      else some (word, p.skip word.length, false) := by
  have hplain : plainWord false p.rest = some word := by
    rw [hrest]
    exact plainWord_append hword.plain hmore
  have hskip : (p.skip word.length).rest = more := by
    rw [Cursor.skip_rest, hrest, List.drop_left]
  rw [takePlainWords, if_neg (hword.not_ended hrest), hplain]
  simp only [Option.bind_eq_bind, Option.bind_some, hword.ne_nil, if_false, hskip, true_and]
  rfl

/-- A key is read up to its colon. -/
theorem takePlain_key (hword : IsWord word) (hrest : p.rest = word ++ ':' :: ' ' :: more) :
    takePlain false least p = some (word, p.skip word.length, false) := by
  unfold takePlain
  rw [takePlainWords_word hword hrest (plainWord_colon more), if_neg]
  exact fun h => nomatch h.1

/-- A value is read up to the end of its line, and past the empty lines after that. -/
theorem takePlain_value (hword : IsWord word) (hrest : p.rest = word ++ '\n' :: more)
    (hmore : LineStarts more) (hleast : 0 < least) : takePlain false least p
      = some (word, pastBreaks (p.index + word.length + 1) (p.line + 1) 0 more, true) := by
  have hend : (p.skip word.length).rest = '\n' :: more := by
    rw [Cursor.skip_rest, hrest, List.drop_left]
  obtain ⟨gap, hbroken, htake⟩ := take_newline least hend hmore
  unfold takePlain
  rw [takePlainWords_word hword hrest (plainWord_newline more), if_pos ⟨rfl, List.cons_ne_nil _ _⟩,
    htake]
  simp only [Option.bind_eq_bind, Option.bind_some, pastBreaks_column, hleast, if_true, hbroken]
  rfl

end StreamQuery.Yaml
