import StreamQuery.Proofs.Yaml.Gaps
set_option autoImplicit false

/-!
# Progress through a text

Whatever is read off a text, no more of the text is left after it than before, and a token that
starts somewhere leaves less.  So no reader that counts its steps runs out of them.
-/

namespace StreamQuery.Yaml

variable {p q : Cursor} {cs : List Char} {n m least : Nat} {flow : Bool}

/-! ## Places -/

namespace Cursor

theorem length_rest_skip_lt (hn : 0 < n) (h : p.rest ≠ []) :
    (p.skip n).rest.length < p.rest.length := by
  have hlength := List.length_pos_iff.2 h
  rw [skip_rest, List.length_drop]
  omega

theorem length_rest_takeBreak_le (p : Cursor) : p.takeBreak.2.rest.length ≤ p.rest.length := by
  by_cases hbreak : p.rest.head?.any isBreak = true
  · exact Nat.le_of_lt (length_rest_takeBreak_lt hbreak)
  · unfold takeBreak
    split
    · rename_i hrest
      rw [hrest] at hbreak
      exact absurd rfl hbreak
    · rename_i c rest _ hrest
      rw [hrest] at hbreak ⊢
      rw [if_neg (by simpa using hbreak)]
      exact Nat.le_of_eq (congrArg List.length hrest)
    · exact Nat.le_refl _

theorem length_rest_endLine?_le (h : p.endLine? = some q) : q.rest.length ≤ p.rest.length := by
  unfold endLine? at h
  dsimp only at h
  split at h
  · obtain rfl := Option.some.inj h
    refine Nat.le_trans (length_rest_takeBreak_le _) ?_
    exact Nat.le_trans (length_rest_skipComment_le _) (length_rest_skip_le _ _)
  · cases h

end Cursor

/-! ## Gaps inside a scalar -/

/-- A gap leaves less of the text if it has a blank or a line break at all. -/
theorem Gap.length_rest_takeFrom {g g' : Gap} {index line column : Nat}
    (h : takeFrom least g index line column cs = some (g', q)) :
    q.rest.length ≤ cs.length ∧ (atGap cs = true → cs ≠ [] → q.rest.length < cs.length) := by
  fun_induction takeFrom least g index line column cs with
  | case1 g index line column rest ih =>
    have hle := (ih h).1
    simp only [List.length_cons]
    omega
  | case2 => cases h
  | case3 g index line column c rest hnot hblank htab ih =>
    have hle := (ih h).1
    simp only [List.length_cons]
    omega
  | case4 g index line column c rest hnot hblank hbreak ih =>
    have hle := (ih h).1
    simp only [List.length_cons]
    omega
  | case5 g index line column c rest hnot hblank hbreak =>
    cases h
    refine ⟨Nat.le_refl _, fun hgap => ?_⟩
    unfold atGap at hgap
    simp [hblank, hbreak] at hgap
  | case6 =>
    cases h
    exact ⟨Nat.le_refl _, fun _ hne => absurd rfl hne⟩

theorem Gap.length_rest_take_le {g g' : Gap} (h : g.take least p = some (g', q)) :
    q.rest.length ≤ p.rest.length := (length_rest_takeFrom h).1

theorem Gap.length_rest_take_lt {g g' : Gap} (h : g.take least p = some (g', q))
    (hgap : atGap p.rest = true) (hne : p.rest ≠ []) : q.rest.length < p.rest.length :=
  (length_rest_takeFrom h).2 hgap hne

/-! ## Plain scalars -/

/-- More steps than characters are not needed. -/
theorem takePlainWords_fuel : ∀ {n m : Nat} {gap : Gap} {p : Cursor}, p.rest.length < n →
    p.rest.length < m → takePlainWords flow least n gap p = takePlainWords flow least m gap p
  | 0, _, _, _, hn, _ => absurd hn (Nat.not_lt_zero _)
  | _, 0, _, _, _, hm => absurd hm (Nat.not_lt_zero _)
  | n + 1, m + 1, gap, p, hn, hm => by
    rw [takePlainWords, takePlainWords]
    split
    · rfl
    · refine bind_congr fun word => ?_
      dsimp only
      have hskip := Cursor.length_rest_skip_le p word.length
      split
      · rename_i hgap
        refine Option.bind_congr fun next htake => ?_
        have hlt := Gap.length_rest_take_lt htake hgap.1 hgap.2
        have hmore : takePlainWords flow least n next.1 next.2
            = takePlainWords flow least m next.1 next.2 :=
          takePlainWords_fuel (by omega) (by omega)
        rw [hmore]
      · rfl

/-- A plain scalar leaves less of the text if it has a first word at all. -/
theorem length_rest_takePlainWords : ∀ {n : Nat} {gap : Gap} {p : Cursor}
    {taken : List Char × Cursor × Bool}, takePlainWords flow least n gap p = some taken →
    taken.2.1.rest.length ≤ p.rest.length ∧ (p.atDocumentMark = false → p.rest.head? ≠ some '#' →
      plainWord flow p.rest ≠ some [] → taken.2.1.rest.length < p.rest.length)
  | 0, _, _, _, h => nomatch h
  | n + 1, gap, p, taken, h => by
    rw [takePlainWords] at h
    split at h
    · rename_i hend
      cases h
      refine ⟨Nat.le_refl _, fun hmark hhash _ => ?_⟩
      rcases hend with hend | hend
      · rw [hmark] at hend
        cases hend
      · exact absurd hend hhash
    · obtain ⟨word, hword, h⟩ := Option.bind_eq_some_iff.1 h
      have hle : taken.2.1.rest.length ≤ (p.skip word.length).rest.length := by
        dsimp only at h
        split at h
        · obtain ⟨next, htake, h⟩ := Option.bind_eq_some_iff.1 h
          have hnext := Gap.length_rest_take_le htake
          split at h
          · cases h
            exact hnext
          · obtain ⟨last, hlast, h⟩ := Option.bind_eq_some_iff.1 h
            have hmore := (length_rest_takePlainWords hlast).1
            cases h
            exact Nat.le_trans hmore hnext
        · cases h
          exact Nat.le_refl _
      refine ⟨Nat.le_trans hle (Cursor.length_rest_skip_le p _), fun _ _ hne => ?_⟩
      refine Nat.lt_of_le_of_lt hle (Cursor.length_rest_skip_lt (List.length_pos_iff.2 ?_) ?_)
      · rintro rfl
        exact hne hword
      · intro hnil
        exact hne (by rw [hnil]; rfl)

/-! ## Quoted scalars -/

/-- A word in single quotes is empty only before a quote, a blank or a line break. -/
theorem singleQuotedWord_empty (h : (singleQuotedWord cs).width = 0) :
    cs.head? = some '\'' ∨ atGap cs = true := by
  unfold singleQuotedWord at h
  split at h
  · exact .inr rfl
  · exact absurd h (by simp [QuotedWord.cons])
  · rename_i c rest _
    split at h
    · rename_i hstop
      rw [Bool.or_eq_true, Bool.or_eq_true, beq_iff_eq] at hstop
      rcases hstop with (rfl | hblank) | hbreak
      · exact .inl rfl
      · exact .inr (by rw [atGap, hblank, Bool.true_or])
      · exact .inr (by rw [atGap, hbreak, Bool.or_true])
    · exact absurd h (by simp [QuotedWord.cons])

theorem doubleQuotedWord_empty {w : QuotedWord} (h : doubleQuotedWord cs = some w)
    (hwidth : w.width = 0) :
    w.beforeEscapedBreak = true ∨ cs.head? = some '"' ∨ atGap cs = true := by
  have hcons {c : Char} {width : Nat} {word : Option QuotedWord} (hpos : 0 < width)
      (h : word.map (·.cons c width) = some w) : False := by
    obtain ⟨more, -, rfl⟩ := Option.map_eq_some_iff.1 h
    simp only [QuotedWord.cons] at hwidth
    omega
  unfold doubleQuotedWord at h
  split at h
  · exact .inr (.inr rfl)
  · obtain ⟨_, -, h⟩ := Option.bind_eq_some_iff.1 h
    exact (hcons (by decide) h).elim
  · obtain ⟨_, -, h⟩ := Option.bind_eq_some_iff.1 h
    exact (hcons (by decide) h).elim
  · obtain ⟨_, -, h⟩ := Option.bind_eq_some_iff.1 h
    exact (hcons (by decide) h).elim
  · split at h
    · cases h
      exact .inl rfl
    · obtain ⟨_, -, h⟩ := Option.bind_eq_some_iff.1 h
      exact (hcons (by decide) h).elim
  · rename_i c rest _ _ _ _
    split at h
    · cases h
    · split at h
      · rename_i hstop
        rw [Bool.or_eq_true, Bool.or_eq_true, beq_iff_eq] at hstop
        rcases hstop with (rfl | hblank) | hbreak
        · exact .inr (.inl rfl)
        · exact .inr (.inr (by rw [atGap, hblank, Bool.true_or]))
        · exact .inr (.inr (by rw [atGap, hbreak, Bool.or_true]))
      · exact (hcons (by decide) h).elim

/-- The word of a quoted scalar. -/
def quotedWord? (quote : Char) (cs : List Char) : Option QuotedWord :=
  if quote = '\'' then some (singleQuotedWord cs) else doubleQuotedWord cs

/-- A word is empty only before the closing quote, a blank or a line break. -/
theorem quotedWord_empty {quote : Char} {w : QuotedWord} (hquote : quote = '\'' ∨ quote = '"')
    (h : quotedWord? quote cs = some w) (hwidth : w.width = 0) :
    w.beforeEscapedBreak = true ∨ cs.head? = some quote ∨ atGap cs = true := by
  rcases hquote with rfl | rfl
  · obtain rfl := Option.some.inj h
    exact .inr (singleQuotedWord_empty hwidth)
  · exact doubleQuotedWord_empty h hwidth

/-- The gap that is open after a word, and where it goes on. -/
def QuotedWord.after (w : QuotedWord) (p : Cursor) : Gap × Cursor :=
  if w.beforeEscapedBreak then (Gap.escaped, ((p.skip w.width).skip 1).takeBreak.2)
  else (Gap.none, p.skip w.width)

theorem takeQuotedWords_succ (quote : Char) (n : Nat) (p : Cursor) :
    takeQuotedWords quote (n + 1) p =
      if p.atDocumentMark ∨ p.rest = [] then none
      else (quotedWord? quote p.rest).bind fun w =>
        if (w.after p).2.rest.head? = some quote then some (w.text, (w.after p).2.skip 1)
        else ((w.after p).1.take 0 (w.after p).2).bind fun next =>
          (takeQuotedWords quote n next.2).bind fun last =>
            some (w.text ++ next.1.text ++ last.1, last.2) := by
  rw [takeQuotedWords, quotedWord?]
  by_cases hquote : quote = '\''
  · simp only [if_pos hquote]
    rfl
  · simp only [if_neg hquote]
    rfl

/-- A word that does not end a scalar, with the gap after it, leaves less of the text. -/
theorem QuotedWord.length_rest_after_lt {quote : Char} {w : QuotedWord} {next : Gap × Cursor}
    (hquote : quote = '\'' ∨ quote = '"') (hword : quotedWord? quote p.rest = some w)
    (hne : p.rest ≠ []) (hend : (w.after p).2.rest.head? ≠ some quote)
    (htake : (w.after p).1.take 0 (w.after p).2 = some next) :
    next.2.rest.length < p.rest.length := by
  have hnext := Gap.length_rest_take_le htake
  unfold after at hend hnext htake
  split at hnext
  · have hbreak := Cursor.length_rest_takeBreak_le ((p.skip w.width).skip 1)
    have hskip : ((p.skip w.width).skip 1).rest.length < p.rest.length := by
      rw [Cursor.skip_skip]
      exact Cursor.length_rest_skip_lt (Nat.succ_pos _) hne
    exact Nat.lt_of_le_of_lt hnext (Nat.lt_of_le_of_lt hbreak hskip)
  · rename_i hescaped
    rw [if_neg hescaped] at hend htake
    rcases Nat.eq_zero_or_pos w.width with hwidth | hpos
    · rw [hwidth, Cursor.skip_zero] at hend htake
      refine Gap.length_rest_take_lt htake ?_ hne
      rcases quotedWord_empty hquote hword hwidth with hbefore | hhead | hgap
      · exact absurd hbefore hescaped
      · exact absurd hhead hend
      · exact hgap
    · exact Nat.lt_of_le_of_lt hnext (Cursor.length_rest_skip_lt hpos hne)

/-- More steps than characters are not needed. -/
theorem takeQuotedWords_fuel {quote : Char} (hquote : quote = '\'' ∨ quote = '"') :
    ∀ {n m : Nat} {p : Cursor}, p.rest.length < n → p.rest.length < m →
      takeQuotedWords quote n p = takeQuotedWords quote m p
  | 0, _, _, hn, _ => absurd hn (Nat.not_lt_zero _)
  | _, 0, _, _, hm => absurd hm (Nat.not_lt_zero _)
  | n + 1, m + 1, p, hn, hm => by
    rw [takeQuotedWords_succ, takeQuotedWords_succ]
    split
    · rfl
    · rename_i hstart
      refine Option.bind_congr fun w hword => ?_
      split
      · rfl
      · rename_i hend
        refine Option.bind_congr fun next htake => ?_
        have hlt := QuotedWord.length_rest_after_lt hquote hword (mt .inr hstart) hend htake
        have hmore : takeQuotedWords quote n next.2 = takeQuotedWords quote m next.2 :=
          takeQuotedWords_fuel hquote (by omega) (by omega)
        rw [hmore]

theorem QuotedWord.length_rest_after_le (w : QuotedWord) (p : Cursor) :
    (w.after p).2.rest.length ≤ p.rest.length := by
  have hskip := Cursor.length_rest_skip_le p w.width
  unfold after
  split
  · refine Nat.le_trans (Cursor.length_rest_takeBreak_le _) ?_
    exact Nat.le_trans (Cursor.length_rest_skip_le _ _) hskip
  · exact hskip

/-- A quoted scalar leaves no more of the text. -/
theorem length_rest_takeQuotedWords_le {quote : Char} : ∀ {n : Nat} {p : Cursor}
    {taken : List Char × Cursor}, takeQuotedWords quote n p = some taken →
    taken.2.rest.length ≤ p.rest.length
  | 0, _, _, h => nomatch h
  | n + 1, p, taken, h => by
    rw [takeQuotedWords_succ] at h
    split at h
    · cases h
    · obtain ⟨w, -, h⟩ := Option.bind_eq_some_iff.1 h
      have hafter := w.length_rest_after_le p
      split at h
      · cases h
        exact Nat.le_trans (Cursor.length_rest_skip_le _ _) hafter
      · obtain ⟨next, htake, h⟩ := Option.bind_eq_some_iff.1 h
        obtain ⟨last, hlast, h⟩ := Option.bind_eq_some_iff.1 h
        have hnext := Gap.length_rest_take_le htake
        have hmore := length_rest_takeQuotedWords_le hlast
        cases h
        exact Nat.le_trans hmore (Nat.le_trans hnext hafter)

/-! ## Blocks -/

theorem length_rest_takeBlankLines_le {indent widest index line column : Nat} {breaks : List Char}
    {between : BlankLines}
    (h : takeBlankLines indent breaks widest index line column cs = some between) :
    between.next.rest.length ≤ cs.length := by
  fun_induction takeBlankLines indent breaks widest index line column cs with
  | case1 breaks widest index line column rest ih =>
    exact Nat.le_trans (ih h) (Nat.le_add_right _ 2)
  | case2 breaks widest index line column c rest hnot hspace ih =>
    exact Nat.le_trans (ih h) (Nat.le_succ _)
  | case3 => cases h
  | case4 breaks widest index line column c rest hnot hspace htab hbreak ih =>
    exact Nat.le_trans (ih h) (Nat.le_succ _)
  | case5 =>
    cases h
    exact Nat.le_refl _
  | case6 =>
    cases h
    exact Nat.le_refl _

theorem length_rest_blankLines_le {indent : Nat} {between : BlankLines}
    (h : blankLines indent p = some between) : between.next.rest.length ≤ p.rest.length :=
  length_rest_takeBlankLines_le h

/-- A line with its break leaves less of the text. -/
theorem length_rest_takeLine_lt (hne : p.rest ≠ []) :
    p.skipToLineEnd.takeBreak.2.rest.length < p.rest.length := by
  have hbreak := Cursor.length_rest_takeBreak_le p.skipToLineEnd
  cases hrest : p.rest with
  | nil => exact absurd hrest hne
  | cons c rest =>
    by_cases hc : isBreak c = true
    · have hstay : p.skipToLineEnd = p := by
        refine Cursor.skipWhile_of_head ?_
        rw [hrest]
        simp [hc]
      rw [hstay, ← hrest]
      refine Cursor.length_rest_takeBreak_lt ?_
      rw [hrest]
      exact hc
    · refine Nat.lt_of_le_of_lt hbreak ?_
      rw [← hrest]
      refine Cursor.length_rest_skip_lt ?_ hne
      rw [hrest, List.takeWhile_cons_of_pos (by simp [hc])]
      exact Nat.succ_pos _

/-- More steps than characters are not needed. -/
theorem takeBlockLines_fuel {folded : Bool} {indent : Nat} : ∀ {n m : Nat} {afterBlank : Bool}
    {first breaks : List Char} {p : Cursor}, p.rest.length < n → p.rest.length < m →
      takeBlockLines folded indent n afterBlank first breaks p
        = takeBlockLines folded indent m afterBlank first breaks p
  | 0, _, _, _, _, _, hn, _ => absurd hn (Nat.not_lt_zero _)
  | _, 0, _, _, _, _, _, hm => absurd hm (Nat.not_lt_zero _)
  | n + 1, m + 1, afterBlank, first, breaks, p, hn, hm => by
    rw [takeBlockLines, takeBlockLines]
    split
    · rename_i hline
      have hlt := length_rest_takeLine_lt hline.2
      refine Option.bind_congr fun between hbetween => ?_
      have hle : between.next.rest.length ≤ p.skipToLineEnd.takeBreak.2.rest.length :=
        length_rest_blankLines_le hbetween
      rw [takeBlockLines_fuel (n := n) (m := m) (by omega) (by omega)]
    · rfl

/-- A block leaves no more of the text. -/
theorem length_rest_takeBlockLines_le {folded : Bool} {indent : Nat} : ∀ {n : Nat}
    {afterBlank : Bool} {first breaks : List Char} {p : Cursor}
    {taken : List Char × List Char × List Char × Cursor},
    takeBlockLines folded indent n afterBlank first breaks p = some taken →
      taken.2.2.2.rest.length ≤ p.rest.length
  | 0, _, _, _, _, _, h => nomatch h
  | n + 1, afterBlank, first, breaks, p, taken, h => by
    rw [takeBlockLines] at h
    split at h
    · rename_i hline
      have hlt := length_rest_takeLine_lt hline.2
      obtain ⟨between, hbetween, h⟩ := Option.bind_eq_some_iff.1 h
      obtain ⟨last, hlast, h⟩ := Option.bind_eq_some_iff.1 h
      have hle := length_rest_blankLines_le hbetween
      have hmore := length_rest_takeBlockLines_le hlast
      cases h
      exact Nat.le_trans hmore (Nat.le_trans hle (Nat.le_of_lt hlt))
    · cases h
      exact Nat.le_refl _

/-- A block with its sign leaves less of the text. -/
theorem length_rest_takeBlock_lt {folded : Bool} {taken : List Char × Cursor} (hne : p.rest ≠ [])
    (h : takeBlock folded least p = some taken) : taken.2.rest.length < p.rest.length := by
  have hsign := Cursor.length_rest_skip_lt Nat.one_pos hne
  unfold takeBlock at h
  dsimp only at h
  generalize blockSigns (p.skip 1).rest = signs at h
  have hsigns := Cursor.length_rest_skip_le (p.skip 1) signs.2.2
  obtain ⟨start, hstart, h⟩ := Option.bind_eq_some_iff.1 h
  obtain ⟨before, hbefore, h⟩ := Option.bind_eq_some_iff.1 h
  obtain ⟨lines, hlines, h⟩ := Option.bind_eq_some_iff.1 h
  have hline := Cursor.length_rest_endLine?_le hstart
  have hblank := length_rest_blankLines_le hbefore
  have hblock := length_rest_takeBlockLines_le hlines
  have htaken : taken.2 = lines.2.2.2 := by
    obtain rfl := Option.some.inj h
    cases signs.1 <;> rfl
  rw [htaken]
  calc lines.2.2.2.rest.length ≤ before.next.rest.length := hblock
    _ ≤ start.rest.length := hblank
    _ ≤ ((p.skip 1).skip signs.2.2).rest.length := hline
    _ ≤ (p.skip 1).rest.length := hsigns
    _ < p.rest.length := hsign

/-! ## Tags -/

theorem length_rest_skip_bytes_lt {bytes : Bytes} (hbytes : escapedCharacter? p.rest = some bytes)
    (hne : p.rest ≠ []) : (p.skip (3 * bytes.length)).rest.length < p.rest.length := by
  unfold escapedCharacter? at hbytes
  obtain ⟨first, -, hbytes⟩ := Option.bind_eq_some_iff.1 hbytes
  obtain ⟨width, -, hbytes⟩ := Option.bind_eq_some_iff.1 hbytes
  obtain ⟨others, -, hbytes⟩ := Option.bind_eq_some_iff.1 hbytes
  obtain rfl := Option.some.inj hbytes
  refine Cursor.length_rest_skip_lt ?_ hne
  rw [List.length_cons]
  omega

/-- More steps than characters are not needed. -/
theorem takeTagBytes_fuel {whole : Bool} : ∀ {n m : Nat} {p : Cursor}, p.rest.length ≤ n →
    p.rest.length ≤ m → takeTagBytes whole n p = takeTagBytes whole m p := by
  have hend : ∀ {n : Nat} {p : Cursor}, p.rest = [] → takeTagBytes whole n p = some ([], p) := by
    intro n p hrest
    cases n with
    | zero => rfl
    | succ n => rw [takeTagBytes, hrest]
  intro n
  induction n with
  | zero =>
    intro m p hn _
    have hrest := List.length_eq_zero_iff.1 (Nat.le_zero.1 hn)
    rw [hend hrest, hend hrest]
  | succ n ih =>
    intro m p hn hm
    cases m with
    | zero =>
      have hrest := List.length_eq_zero_iff.1 (Nat.le_zero.1 hm)
      rw [hend hrest, hend hrest]
    | succ m =>
      rw [takeTagBytes, takeTagBytes]
      split
      · rfl
      · rename_i c rest hrest
        have hne : p.rest ≠ [] := by
          rw [hrest]
          exact List.cons_ne_nil _ _
        split
        · refine Option.bind_congr fun bytes hbytes => ?_
          have hlt := length_rest_skip_bytes_lt hbytes hne
          rw [ih (m := m) (by omega) (by omega)]
        · split
          · have hlt := Cursor.length_rest_skip_lt Nat.one_pos hne
            rw [ih (m := m) (by omega) (by omega)]
          · rfl

theorem length_rest_takeTagBytes_le {whole : Bool} : ∀ {n : Nat} {p : Cursor}
    {taken : Bytes × Cursor}, takeTagBytes whole n p = some taken →
    taken.2.rest.length ≤ p.rest.length
  | 0, _, _, h => by
    cases h
    exact Nat.le_refl _
  | n + 1, p, taken, h => by
    rw [takeTagBytes] at h
    split at h
    · cases h
      exact Nat.le_refl _
    · split at h
      · obtain ⟨bytes, -, h⟩ := Option.bind_eq_some_iff.1 h
        obtain ⟨more, hmore, h⟩ := Option.bind_eq_some_iff.1 h
        have hle := length_rest_takeTagBytes_le hmore
        cases h
        exact Nat.le_trans hle (Cursor.length_rest_skip_le _ _)
      · split at h
        · obtain ⟨more, hmore, h⟩ := Option.bind_eq_some_iff.1 h
          have hle := length_rest_takeTagBytes_le hmore
          cases h
          exact Nat.le_trans hle (Cursor.length_rest_skip_le _ _)
        · cases h
          exact Nat.le_refl _

theorem length_rest_takeTagPart_le {whole : Bool} {taken : Bytes × Cursor}
    (h : takeTagPart whole p = some taken) : taken.2.rest.length ≤ p.rest.length := by
  unfold takeTagPart at h
  obtain ⟨bytes, hbytes, h⟩ := Option.bind_eq_some_iff.1 h
  have hle := length_rest_takeTagBytes_le hbytes
  dsimp only at h
  split at h
  · cases h
  · cases h
    exact hle

theorem length_rest_takeHandle_lt {taken : List Char × Cursor} (h : takeHandle p = some taken) :
    taken.2.rest.length < p.rest.length := by
  unfold takeHandle at h
  split at h
  · rename_i hhead
    have hne : p.rest ≠ [] := fun hnil => nomatch hnil ▸ hhead
    have hlt := Cursor.length_rest_skip_lt
      (Nat.lt_add_right ((p.rest.drop 1).takeWhile isWordChar).length Nat.one_pos) hne
    dsimp only at h
    split at h
    · cases h
      exact Nat.lt_of_le_of_lt (Cursor.length_rest_skip_le _ _) hlt
    · cases h
      exact hlt
  · cases h

theorem length_rest_takeWholeTag_lt {taken : WrittenTag × Cursor} (hne : p.rest ≠ [])
    (h : takeWholeTag p = some taken) : taken.2.rest.length < p.rest.length := by
  unfold takeWholeTag at h
  obtain ⟨part, hpart, h⟩ := Option.bind_eq_some_iff.1 h
  have hle := Nat.lt_of_le_of_lt (length_rest_takeTagPart_le hpart)
    (Cursor.length_rest_skip_lt Nat.two_pos hne)
  dsimp only at h
  split at h
  · cases h
    exact Nat.lt_of_le_of_lt (Cursor.length_rest_skip_le _ _) hle
  · cases h

theorem length_rest_takeShortTag_lt {taken : WrittenTag × Cursor}
    (h : takeShortTag p = some taken) : taken.2.rest.length < p.rest.length := by
  unfold takeShortTag at h
  obtain ⟨handle, hhandle, h⟩ := Option.bind_eq_some_iff.1 h
  have hlt := length_rest_takeHandle_lt hhandle
  dsimp only at h
  split at h
  · obtain ⟨part, hpart, h⟩ := Option.bind_eq_some_iff.1 h
    cases h
    exact Nat.lt_of_le_of_lt (length_rest_takeTagPart_le hpart) hlt
  · obtain ⟨bytes, hbytes, h⟩ := Option.bind_eq_some_iff.1 h
    have hle := Nat.lt_of_le_of_lt (length_rest_takeTagBytes_le hbytes) hlt
    split at h
    · cases h
      exact hle
    · cases h
      exact hle

/-- A tag leaves less of the text. -/
theorem length_rest_takeTag_lt {taken : WrittenTag × Cursor} (hne : p.rest ≠ [])
    (h : takeTag flow p = some taken) : taken.2.rest.length < p.rest.length := by
  have hend {t : WrittenTag × Cursor} (ht : t.2.rest.length < p.rest.length)
      (h : (if atGap t.2.rest ∨ (flow ∧ t.2.rest.head? = some ',') then some (t.1, t.2) else none)
        = some taken) : taken.2.rest.length < p.rest.length := by
    split at h
    · cases h
      exact ht
    · cases h
  unfold takeTag at h
  dsimp only at h
  split at h
  · obtain ⟨t, ht, h⟩ := Option.bind_eq_some_iff.1 h
    exact hend (length_rest_takeWholeTag_lt hne ht) h
  · obtain ⟨t, ht, h⟩ := Option.bind_eq_some_iff.1 h
    exact hend (length_rest_takeShortTag_lt ht) h

/-! ## Directives -/

theorem length_rest_takeVersionNumber_le {taken : Nat × Cursor}
    (h : takeVersionNumber p = some taken) : taken.2.rest.length ≤ p.rest.length := by
  unfold takeVersionNumber at h
  dsimp only at h
  split at h
  · cases h
  · cases h
    exact Cursor.length_rest_skip_le _ _

theorem length_rest_takeVersion_le {taken : Directive × Cursor} (h : takeVersion p = some taken) :
    taken.2.rest.length ≤ p.rest.length := by
  unfold takeVersion at h
  obtain ⟨major, hmajor, h⟩ := Option.bind_eq_some_iff.1 h
  have hle := Nat.le_trans (length_rest_takeVersionNumber_le hmajor)
    (Cursor.length_rest_skip_le _ _)
  dsimp only at h
  split at h
  · obtain ⟨minor, hminor, h⟩ := Option.bind_eq_some_iff.1 h
    have hminor := Nat.le_trans (length_rest_takeVersionNumber_le hminor)
      (Cursor.length_rest_skip_le _ _)
    cases h
    exact Nat.le_trans hminor hle
  · cases h

theorem length_rest_takeTagStart_le {taken : Directive × Cursor} (h : takeTagStart p = some taken) :
    taken.2.rest.length ≤ p.rest.length := by
  unfold takeTagStart at h
  obtain ⟨handle, hhandle, h⟩ := Option.bind_eq_some_iff.1 h
  have hle := Nat.le_trans (Nat.le_of_lt (length_rest_takeHandle_lt hhandle))
    (Cursor.length_rest_skip_le _ _)
  dsimp only at h
  split at h
  · cases h
  · split at h
    · obtain ⟨part, hpart, h⟩ := Option.bind_eq_some_iff.1 h
      have hpart := Nat.le_trans (length_rest_takeTagPart_le hpart) (Cursor.length_rest_skip_le _ _)
      split at h
      · cases h
        exact Nat.le_trans hpart hle
      · cases h
    · cases h

/-- A directive leaves less of the text. -/
theorem length_rest_takeDirective_lt {taken : Directive × Cursor} (hne : p.rest ≠ [])
    (h : takeDirective p = some taken) : taken.2.rest.length < p.rest.length := by
  unfold takeDirective at h
  dsimp only at h
  generalize (p.rest.drop 1).takeWhile isWordChar = name at h
  have hlt := Cursor.length_rest_skip_lt (Nat.lt_add_right name.length Nat.one_pos) hne
  have hend {d : Directive × Cursor} (hd : d.2.rest.length ≤ (p.skip (1 + name.length)).rest.length)
      (h : (d.2.endLine?.bind fun q => some (d.1, q)) = some taken) :
      taken.2.rest.length < p.rest.length := by
    obtain ⟨q, hq, h⟩ := Option.bind_eq_some_iff.1 h
    have hline := Cursor.length_rest_endLine?_le hq
    cases h
    exact Nat.lt_of_le_of_lt (Nat.le_trans hline hd) hlt
  split at h
  · split at h
    · obtain ⟨d, hd, h⟩ := Option.bind_eq_some_iff.1 h
      exact hend (length_rest_takeVersion_le hd) h
    · split at h
      · obtain ⟨d, hd, h⟩ := Option.bind_eq_some_iff.1 h
        exact hend (length_rest_takeTagStart_le hd) h
      · cases h
  · cases h

end StreamQuery.Yaml
