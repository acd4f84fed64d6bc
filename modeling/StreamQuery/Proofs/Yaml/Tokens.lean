import StreamQuery.Proofs.Yaml.Progress
set_option autoImplicit false

/-!
# The scanner does not run out of steps

Each token takes a character at least (`Scanner.length_rest_takeToken_lt`), so the number that
bounds the tokens does not matter as long as it is larger than what is left of the text
(`Scanner.takeTokens_fuel`).  A text that is refused is refused for what it holds.
-/

namespace StreamQuery.Yaml

namespace Scanner

variable {s t : Scanner} {c : Char} {rest : List Char}

/-! ## Steps that stay where they are -/

theorem dropKey_eq (h : s.dropKey = some t) : t = { s with keyStart := none } := by
  unfold dropKey at h
  split at h
  · cases h
  · exact (Option.some.inj h).symm

theorem noteKey_eq (h : s.noteKey = some t) : ∃ k, t = { s with keyStart := k } := by
  unfold noteKey at h
  split at h
  · obtain ⟨u, hu, rfl⟩ := Option.map_eq_some_iff.1 h
    obtain rfl := dropKey_eq hu
    exact ⟨_, rfl⟩
  · exact ⟨s.keyStart, (Option.some.inj h).symm⟩

theorem dropStaleKey_eq (h : s.dropStaleKey = some t) : ∃ k, t = { s with keyStart := k } := by
  unfold dropStaleKey at h
  split at h
  · split at h
    · exact ⟨none, dropKey_eq h⟩
    · exact ⟨s.keyStart, (Option.some.inj h).symm⟩
  · exact ⟨s.keyStart, (Option.some.inj h).symm⟩

theorem closeAll_place (s : Scanner) : s.closeAll.place = s.place := by
  unfold closeAll
  split <;> rfl

theorem closeBlock_place (s : Scanner) (column : Nat) : (s.closeBlock column).place = s.place := by
  unfold closeBlock
  split <;> rfl

theorem insertEntry_place {column n : Nat} {ts : List Token}
    (h : s.insertEntry column n ts = some t) : t.place = s.place := by
  unfold insertEntry at h
  split at h
  · cases h
    rfl
  · split at h
    · cases h
      rfl
    · split at h
      · cases h
      · cases h
        rfl

/-! ## Tokens -/

/-- The place after the next character is further on. -/
theorem length_rest_skip_lt {n : Nat} (hn : 0 < n) (hplace : t.place = s.place)
    (hrest : s.place.rest = c :: rest) : (t.place.skip n).rest.length < s.place.rest.length := by
  rw [hplace]
  exact Cursor.length_rest_skip_lt hn (hrest ▸ List.cons_ne_nil c rest)

theorem length_rest_directive_lt (hrest : s.place.rest = c :: rest) (h : s.directive = some t) :
    t.place.rest.length < s.place.rest.length := by
  unfold directive at h
  obtain ⟨u, hu, h⟩ := Option.bind_eq_some_iff.1 h
  obtain ⟨taken, htaken, h⟩ := Option.bind_eq_some_iff.1 h
  obtain rfl := dropKey_eq hu
  have hplace := s.closeAll_place
  have hne : s.closeAll.place.rest ≠ [] := by
    rw [hplace, hrest]
    exact List.cons_ne_nil _ _
  have hlt := length_rest_takeDirective_lt hne htaken
  rw [hplace] at hlt
  cases h
  exact hlt

theorem length_rest_documentMark_lt {mark : Token} (hrest : s.place.rest = c :: rest)
    (h : s.documentMark mark = some t) : t.place.rest.length < s.place.rest.length := by
  obtain ⟨u, hu, rfl⟩ := Option.map_eq_some_iff.1 h
  obtain rfl := dropKey_eq hu
  exact length_rest_skip_lt (t := s.closeAll) (by decide) s.closeAll_place hrest

theorem length_rest_openBrace_lt (hrest : s.place.rest = c :: rest) (h : s.openBrace = some t) :
    t.place.rest.length < s.place.rest.length := by
  unfold openBrace at h
  split at h
  · cases h
  · cases h
    exact length_rest_skip_lt Nat.one_pos rfl hrest

theorem length_rest_closeBrace_lt (hrest : s.place.rest = c :: rest) (h : s.closeBrace = some t) :
    t.place.rest.length < s.place.rest.length := by
  obtain ⟨u, hu, rfl⟩ := Option.map_eq_some_iff.1 h
  obtain rfl := dropKey_eq hu
  exact length_rest_skip_lt Nat.one_pos rfl hrest

theorem length_rest_comma_lt (hrest : s.place.rest = c :: rest) (h : s.comma = some t) :
    t.place.rest.length < s.place.rest.length := by
  obtain ⟨u, hu, rfl⟩ := Option.map_eq_some_iff.1 h
  obtain rfl := dropKey_eq hu
  exact length_rest_skip_lt Nat.one_pos rfl hrest

theorem length_rest_announceKey_lt (hrest : s.place.rest = c :: rest)
    (h : s.announceKey = some t) : t.place.rest.length < s.place.rest.length := by
  unfold announceKey at h
  split at h
  · obtain ⟨u, hu, h⟩ := Option.bind_eq_some_iff.1 h
    obtain ⟨v, hv, h⟩ := Option.bind_eq_some_iff.1 h
    obtain rfl := dropKey_eq hv
    cases h
    exact length_rest_skip_lt (t := u) Nat.one_pos (insertEntry_place hu) hrest
  · cases h

theorem length_rest_announceValue_lt (hrest : s.place.rest = c :: rest)
    (h : s.announceValue = some t) : t.place.rest.length < s.place.rest.length := by
  unfold announceValue at h
  split at h
  · obtain ⟨u, hu, h⟩ := Option.bind_eq_some_iff.1 h
    cases h
    exact length_rest_skip_lt Nat.one_pos (insertEntry_place hu) hrest
  · split at h
    · obtain ⟨u, hu, h⟩ := Option.bind_eq_some_iff.1 h
      cases h
      exact length_rest_skip_lt Nat.one_pos (insertEntry_place hu) hrest
    · cases h

theorem length_rest_named_lt {token : List Char → Token} (hrest : s.place.rest = c :: rest)
    (h : s.named token = some t) : t.place.rest.length < s.place.rest.length := by
  unfold named at h
  obtain ⟨u, hu, h⟩ := Option.bind_eq_some_iff.1 h
  obtain ⟨k, rfl⟩ := noteKey_eq hu
  dsimp only at h
  split at h
  · cases h
    exact length_rest_skip_lt (Nat.lt_add_right _ Nat.one_pos) rfl hrest
  · cases h

theorem length_rest_tag_lt (hrest : s.place.rest = c :: rest) (h : s.tag = some t) :
    t.place.rest.length < s.place.rest.length := by
  unfold tag at h
  obtain ⟨u, hu, h⟩ := Option.bind_eq_some_iff.1 h
  obtain ⟨taken, htaken, h⟩ := Option.bind_eq_some_iff.1 h
  obtain ⟨k, rfl⟩ := noteKey_eq hu
  cases h
  exact length_rest_takeTag_lt (hrest ▸ List.cons_ne_nil c rest) htaken

theorem length_rest_blockScalar_lt {style : Style} (hrest : s.place.rest = c :: rest)
    (h : s.blockScalar style = some t) : t.place.rest.length < s.place.rest.length := by
  unfold blockScalar at h
  obtain ⟨u, hu, h⟩ := Option.bind_eq_some_iff.1 h
  obtain ⟨taken, htaken, h⟩ := Option.bind_eq_some_iff.1 h
  obtain rfl := dropKey_eq hu
  cases h
  exact length_rest_takeBlock_lt (hrest ▸ List.cons_ne_nil c rest) htaken

theorem length_rest_quoted_lt {quote : Char} (hrest : s.place.rest = c :: rest)
    (h : s.quoted quote = some t) : t.place.rest.length < s.place.rest.length := by
  unfold quoted at h
  obtain ⟨u, hu, h⟩ := Option.bind_eq_some_iff.1 h
  obtain ⟨taken, htaken, h⟩ := Option.bind_eq_some_iff.1 h
  obtain ⟨k, rfl⟩ := noteKey_eq hu
  have hlt := length_rest_skip_lt (t := s) Nat.one_pos rfl hrest
  cases h
  exact Nat.lt_of_le_of_lt (length_rest_takeQuotedWords_le htaken) hlt

/-- What starts a plain scalar belongs to its first word. -/
theorem plainWord_ne_nil (h : s.startsPlain c rest = true) :
    plainWord s.flow (c :: rest) ≠ some [] := by
  have hstart : (isBlank c || isBreak c) = false ∧
      ((c == ':' && atGap rest) || (s.flow && isFlowMark c)) = false := by
    unfold startsPlain at h
    split at h
    · rename_i hdash
      obtain rfl := beq_iff_eq.1 hdash
      exact ⟨by decide, by simp [isFlowMark]⟩
    · split at h
      · rename_i hmark
        rw [Bool.and_eq_true, Bool.not_eq_true', Bool.not_eq_true'] at h
        rw [h.1, h.2, Bool.and_false, Bool.false_and]
        rw [Bool.or_eq_true, beq_iff_eq, beq_iff_eq] at hmark
        rcases hmark with rfl | rfl
        · exact ⟨by decide, rfl⟩
        · exact ⟨by decide, rfl⟩
      · rename_i hother
        simp only [Bool.and_eq_true, Bool.not_eq_true'] at h
        rw [Bool.not_eq_true, Bool.or_eq_false_iff] at hother
        have hflow : isFlowMark c = false := by
          have hreserved := h.1.1
          unfold isReserved at hreserved
          exact (Bool.or_eq_false_iff.1 hreserved).1
        rw [h.1.2, h.2, hother.2, hflow, Bool.false_and, Bool.and_false]
        exact ⟨rfl, rfl⟩
  rw [plainWord, hstart.1, hstart.2]
  simp only [Bool.false_eq_true, if_false]
  split
  · exact fun h => nomatch h
  · intro h
    obtain ⟨word, -, hword⟩ := Option.map_eq_some_iff.1 h
    cases hword

/-- A plain scalar starts with no hash. -/
theorem ne_hash_of_startsPlain (h : s.startsPlain c rest = true) : c ≠ '#' := by
  rintro rfl
  unfold startsPlain at h
  simp [isReserved] at h

theorem length_rest_plain_lt (hrest : s.place.rest = c :: rest)
    (hmark : s.place.atDocumentMark = false) (hstart : s.startsPlain c rest = true)
    (h : s.plain = some t) : t.place.rest.length < s.place.rest.length := by
  unfold plain at h
  obtain ⟨u, hu, h⟩ := Option.bind_eq_some_iff.1 h
  obtain ⟨taken, htaken, h⟩ := Option.bind_eq_some_iff.1 h
  obtain ⟨k, rfl⟩ := noteKey_eq hu
  cases h
  refine (length_rest_takePlainWords htaken).2 hmark ?_ ?_
  · rw [hrest]
    exact fun h => ne_hash_of_startsPlain hstart (Option.some.inj h)
  · rw [hrest]
    exact plainWord_ne_nil hstart

/-- What either branch of a choice gives. -/
theorem ite_elim {p q : Prop} [Decidable p] {a b : Option Scanner}
    (h : (if p then a else b) = some t) (ha : p → a = some t → q) (hb : ¬p → b = some t → q) :
    q := by
  split at h
  · exact ha ‹p› h
  · exact hb ‹¬p› h

/-- A token takes a character at least. -/
theorem length_rest_takeToken_lt (hrest : s.place.rest = c :: rest)
    (h : s.takeToken c rest = some t) : t.place.rest.length < s.place.rest.length := by
  unfold takeToken at h
  refine ite_elim h (fun _ => length_rest_directive_lt hrest) fun _ h => ?_
  refine ite_elim h (fun _ => length_rest_documentMark_lt hrest) fun hdashes h => ?_
  refine ite_elim h (fun _ => length_rest_documentMark_lt hrest) fun hdots h => ?_
  refine ite_elim h (fun _ => length_rest_openBrace_lt hrest) fun _ h => ?_
  refine ite_elim h (fun _ => length_rest_closeBrace_lt hrest) fun _ h => ?_
  refine ite_elim h (fun _ => length_rest_comma_lt hrest) fun _ h => ?_
  refine ite_elim h (fun _ => length_rest_announceKey_lt hrest) fun _ h => ?_
  refine ite_elim h (fun _ => length_rest_announceValue_lt hrest) fun _ h => ?_
  refine ite_elim h (fun _ => length_rest_named_lt hrest) fun _ h => ?_
  refine ite_elim h (fun _ => length_rest_named_lt hrest) fun _ h => ?_
  refine ite_elim h (fun _ => length_rest_tag_lt hrest) fun _ h => ?_
  refine ite_elim h (fun _ => length_rest_blockScalar_lt hrest) fun _ h => ?_
  refine ite_elim h (fun _ => length_rest_blockScalar_lt hrest) fun _ h => ?_
  refine ite_elim h (fun _ => length_rest_quoted_lt hrest) fun _ h => ?_
  refine ite_elim h (fun hstart => length_rest_plain_lt hrest ?_ hstart) fun _ h => nomatch h
  unfold Cursor.atDocumentMark
  rw [Bool.or_eq_false_iff]
  exact ⟨Bool.eq_false_iff.2 hdashes, Bool.eq_false_iff.2 hdots⟩

/-! ## All tokens -/

theorem length_rest_skipGap_le : ∀ (n : Nat) (s : Scanner),
    (skipGap n s).place.rest.length ≤ s.place.rest.length
  | 0, _ => Nat.le_refl _
  | n + 1, s => by
    have hle := s.length_rest_gapEnd_le
    rw [skipGap_succ]
    split
    · rename_i hbreak
      have hlt := Nat.lt_of_lt_of_le (Cursor.length_rest_takeBreak_lt hbreak) hle
      exact Nat.le_trans (length_rest_skipGap_le n _) (Nat.le_of_lt hlt)
    · exact hle

/-- More steps than characters are not needed. -/
theorem takeTokens_fuel : ∀ {n m : Nat} {s : Scanner}, s.place.rest.length < n →
    s.place.rest.length < m → takeTokens n s = takeTokens m s
  | 0, _, _, hn, _ => absurd hn (Nat.not_lt_zero _)
  | _, 0, _, _, hm => absurd hm (Nat.not_lt_zero _)
  | n + 1, m + 1, s, hn, hm => by
    rw [takeTokens_succ, takeTokens_succ]
    refine Option.bind_congr fun t ht => ?_
    have hle : t.place.rest.length ≤ s.place.rest.length := by
      obtain ⟨k, rfl⟩ := dropStaleKey_eq ht
      exact length_rest_skipGap_le _ s
    split
    · rfl
    · rename_i c rest hrest
      refine Option.bind_congr fun u hu => ?_
      have hplace := t.closeBlock_place t.place.column
      have hlt := length_rest_takeToken_lt (by rw [hplace]; exact hrest) hu
      rw [hplace] at hlt
      exact takeTokens_fuel (by omega) (by omega)

end Scanner

/-- The tokens of a text are those that any number of steps finds that is larger than the text. -/
theorem scan_eq_takeTokens {text : List Char} {n : Nat} (hallowed : text.all isAllowed = true)
    (hn : text.length < n) : scan text = Scanner.takeTokens n (.start text) := by
  rw [scan, if_pos hallowed]
  exact Scanner.takeTokens_fuel (Nat.lt_succ_self _) hn

end StreamQuery.Yaml
