import StreamQuery.Yaml.Token
set_option autoImplicit false

/-!
# Gaps between tokens

The scanner goes to its next token past blanks, comments and line breaks.  Every step of this takes
a character, so the number that bounds the steps does not matter as long as it is larger than what
is left of the text (`Scanner.skipGap_fuel`).  Empty lines and comments are nothing to the scanner:
with or without them it comes to the same token (`Scanner.settle_break`, `Scanner.settle_comment`).
-/

namespace StreamQuery.Yaml

/-! ## Places -/

namespace Cursor

variable {p : Cursor}

@[simp] theorem skip_zero (p : Cursor) : p.skip 0 = p := rfl

@[simp] theorem skip_rest (p : Cursor) (n : Nat) : (p.skip n).rest = p.rest.drop n := rfl

@[simp] theorem skip_index (p : Cursor) (n : Nat) : (p.skip n).index = p.index + n := rfl

@[simp] theorem skip_line (p : Cursor) (n : Nat) : (p.skip n).line = p.line := rfl

@[simp] theorem skip_column (p : Cursor) (n : Nat) : (p.skip n).column = p.column + n := rfl

theorem skip_skip (p : Cursor) (n m : Nat) : (p.skip n).skip m = p.skip (n + m) := by
  unfold skip
  rw [List.drop_drop, Nat.add_assoc, Nat.add_assoc]

theorem length_rest_skip_le (p : Cursor) (n : Nat) : (p.skip n).rest.length ≤ p.rest.length := by
  rw [skip_rest, List.length_drop]
  exact Nat.sub_le _ _

/-- The place after a byte order mark at the start of the text. -/
def pastMark (p : Cursor) : Cursor :=
  if p.index = 0 ∧ p.rest.head? = some '\ufeff' then p.skip 1 else p

theorem pastMark_of_head (h : p.rest.head? ≠ some '\ufeff') : p.pastMark = p :=
  if_neg fun hmark => h hmark.2

theorem length_rest_pastMark_le (p : Cursor) : p.pastMark.rest.length ≤ p.rest.length := by
  unfold pastMark
  split
  · exact length_rest_skip_le p 1
  · exact Nat.le_refl _

/-- The place stays if the class does not have the next character. -/
theorem skipWhile_of_head {test : Char → Bool} (h : p.rest.head?.any test = false) :
    p.skipWhile test = p := by
  unfold skipWhile
  cases hrest : p.rest with
  | nil => rfl
  | cons c rest =>
    rw [hrest] at h
    rw [List.takeWhile_cons_of_neg (by simpa using h)]
    rfl

/-- Only a hash starts a comment. -/
theorem skipComment_of_head (h : p.rest.head? ≠ some '#') : p.skipComment = p := if_neg h

/-- A comment ends at the end of its line. -/
theorem skipComment_of_hash {text more : List Char} (hrest : p.rest = '#' :: (text ++ '\n' :: more))
    (htext : ∀ c ∈ text, isBreak c = false) : p.skipComment = p.skip (text.length + 1) := by
  have htaken : ('#' :: text ++ '\n' :: more).takeWhile (fun c => !isBreak c) = '#' :: text := by
    rw [List.takeWhile_append_of_pos]
    · rw [List.takeWhile_cons_of_neg (by decide), List.append_nil]
    · intro c hc
      rcases List.mem_cons.1 hc with rfl | hc
      · rfl
      · rw [htext c hc]
        rfl
  unfold skipComment skipToLineEnd skipWhile
  rw [if_pos (by rw [hrest]; rfl), hrest, ← List.cons_append, htaken]
  rfl

/-- A line feed is taken. -/
theorem takeBreak_of_newline {more : List Char} (hrest : p.rest = '\n' :: more) :
    p.takeBreak.2 = ⟨more, p.index + 1, p.line + 1, 0⟩ := by
  unfold takeBreak
  rw [hrest]
  rfl

theorem length_rest_skipComment_le (p : Cursor) : p.skipComment.rest.length ≤ p.rest.length := by
  unfold skipComment
  split
  · exact length_rest_skip_le p _
  · exact Nat.le_refl _

/-- A line break is taken. -/
theorem length_rest_takeBreak_lt (h : p.rest.head?.any isBreak = true) :
    p.takeBreak.2.rest.length < p.rest.length := by
  unfold takeBreak
  split
  · rename_i rest hrest
    rw [hrest]
    exact Nat.lt_succ_of_lt (Nat.lt_succ_self _)
  · rename_i c rest _ hrest
    rw [hrest] at h ⊢
    rw [if_pos (by simpa using h)]
    exact Nat.lt_succ_self _
  · rename_i hrest
    rw [hrest] at h
    cases h

end Cursor

/-! ## The next token -/

namespace Scanner

variable {s : Scanner}

/-- The place that one step past a gap comes to, before a line break. -/
def gapEnd (s : Scanner) : Cursor :=
  (s.place.pastMark.skipWhile fun c =>
    c == ' ' || ((s.flow || !s.keyAllowed) && c == '\t')).skipComment

theorem skipGap_succ (n : Nat) (s : Scanner) : skipGap (n + 1) s =
    if s.gapEnd.rest.head?.any isBreak then
      skipGap n { s with place := s.gapEnd.takeBreak.2, keyAllowed := s.keyAllowed || !s.flow }
    else { s with place := s.gapEnd } := rfl

theorem length_rest_gapEnd_le (s : Scanner) : s.gapEnd.rest.length ≤ s.place.rest.length := by
  unfold gapEnd
  refine Nat.le_trans (Cursor.length_rest_skipComment_le _) ?_
  exact Nat.le_trans (Cursor.length_rest_skip_le _ _) (Cursor.length_rest_pastMark_le _)

/-- More steps than characters are not needed. -/
theorem skipGap_fuel : ∀ {n m : Nat} {s : Scanner}, s.place.rest.length < n →
    s.place.rest.length < m → skipGap n s = skipGap m s
  | 0, _, _, hn, _ => absurd hn (Nat.not_lt_zero _)
  | _, 0, _, _, hm => absurd hm (Nat.not_lt_zero _)
  | n + 1, m + 1, s, hn, hm => by
    rw [skipGap_succ, skipGap_succ]
    split
    · rename_i hbreak
      have hlt := Cursor.length_rest_takeBreak_lt hbreak
      have hle := s.length_rest_gapEnd_le
      exact skipGap_fuel (by dsimp only; omega) (by dsimp only; omega)
    · rfl

/-- The scanner at its next token. -/
def settle (s : Scanner) : Scanner := skipGap (s.place.rest.length + 1) s

theorem takeTokens_succ (n : Nat) (s : Scanner) : takeTokens (n + 1) s = (do
    let s ← s.settle.dropStaleKey
    match s.place.rest with
    | [] =>
      let s ← s.closeAll.dropKey
      return s.tokens.reverse
    | c :: rest => (s.closeBlock s.place.column).takeToken c rest >>= takeTokens n) := rfl

/-- A line break is no token. -/
theorem settle_of_gapEnd (h : s.gapEnd.rest.head?.any isBreak = true) : s.settle =
    settle { s with place := s.gapEnd.takeBreak.2, keyAllowed := s.keyAllowed || !s.flow } := by
  have hlt := Cursor.length_rest_takeBreak_lt h
  have hle := s.length_rest_gapEnd_le
  unfold settle
  rw [skipGap_succ, if_pos h]
  exact skipGap_fuel (by dsimp only; omega) (by dsimp only; omega)

/-- A character that is no blank, starts no comment and is no byte order mark. -/
def startsToken (c : Char) : Bool := !isBlank c && c != '#' && c != '\ufeff'

/-- A gap ends before a character that starts a token, and before a line break. -/
theorem gapEnd_of_head (h : s.place.rest.head?.all startsToken = true) : s.gapEnd = s.place := by
  have hmark : s.place.rest.head? ≠ some '\ufeff' := by
    intro hhead
    rw [hhead] at h
    cases h
  have hhash : s.place.rest.head? ≠ some '#' := by
    intro hhead
    rw [hhead] at h
    cases h
  unfold gapEnd
  rw [Cursor.pastMark_of_head hmark, Cursor.skipWhile_of_head, Cursor.skipComment_of_head hhash]
  cases hrest : s.place.rest with
  | nil => rfl
  | cons c rest =>
    rw [hrest] at h
    simp only [List.head?_cons, Option.all_some, startsToken, isBlank, Bool.and_eq_true,
      Bool.not_eq_true', Bool.or_eq_false_iff] at h
    rw [List.head?_cons, Option.any_some, h.1.1.1, h.1.1.2, Bool.and_false, Bool.or_false]

/-- At a token the scanner stays. -/
theorem settle_of_head (h : s.place.rest.head?.all (fun c => startsToken c && !isBreak c) = true) :
    s.settle = s := by
  have hgap : s.gapEnd = s.place := by
    refine gapEnd_of_head ?_
    cases hrest : s.place.rest with
    | nil => rfl
    | cons c rest =>
      rw [hrest, List.head?_cons, Option.all_some, Bool.and_eq_true] at h
      exact h.1
  unfold settle
  rw [skipGap_succ, hgap, if_neg]
  cases hrest : s.place.rest with
  | nil => exact nofun
  | cons c rest =>
    rw [hrest, List.head?_cons, Option.all_some, Bool.and_eq_true, Bool.not_eq_true'] at h
    rw [List.head?_cons, Option.any_some, h.2]
    exact Bool.false_ne_true

/-- A blank before a token is skipped. -/
theorem settle_space {c : Char} {more : List Char} (hrest : s.place.rest = ' ' :: c :: more)
    (hc : startsToken c = true) (hbreak : isBreak c = false) :
    s.settle = { s with place := s.place.skip 1 } := by
  simp only [startsToken, isBlank, Bool.and_eq_true, Bool.not_eq_true', Bool.or_eq_false_iff,
    bne_iff_ne] at hc
  obtain ⟨⟨⟨hspace, htab⟩, hhash⟩, -⟩ := hc
  have hnext : (s.place.skip 1).rest = c :: more := by
    rw [Cursor.skip_rest, hrest]
    rfl
  have hgap : s.gapEnd = s.place.skip 1 := by
    have htaken : s.place.skipWhile (fun c => c == ' ' || ((s.flow || !s.keyAllowed) && c == '\t'))
        = s.place.skip 1 := by
      unfold Cursor.skipWhile
      rw [hrest, List.takeWhile_cons_of_pos rfl, List.takeWhile_cons_of_neg]
      · rfl
      · rw [hspace, htab, Bool.and_false]
        exact Bool.false_ne_true
    unfold gapEnd
    rw [Cursor.pastMark_of_head (by rw [hrest]; exact nofun), htaken, Cursor.skipComment_of_head]
    rw [hnext]
    exact fun h => hhash (Option.some.inj h)
  unfold settle
  rw [skipGap_succ, hgap, hnext, List.head?_cons, Option.any_some, hbreak,
    if_neg Bool.false_ne_true]

/-- An empty line is nothing to the scanner. -/
theorem settle_break {more : List Char} (hrest : s.place.rest = '\n' :: more)
    (hflow : s.flow = false) : s.settle = settle { s with
      place := ⟨more, s.place.index + 1, s.place.line + 1, 0⟩, keyAllowed := true } := by
  have hgap : s.gapEnd = s.place := gapEnd_of_head (by rw [hrest]; rfl)
  rw [settle_of_gapEnd (by rw [hgap, hrest]; rfl), hgap, Cursor.takeBreak_of_newline hrest, hflow,
    Bool.not_false, Bool.or_true]

/-- A comment is nothing to the scanner. -/
theorem settle_comment {text more : List Char}
    (hrest : s.place.rest = '#' :: (text ++ '\n' :: more))
    (htext : ∀ c ∈ text, isBreak c = false) (hflow : s.flow = false) :
    s.settle = settle { s with
      place := ⟨more, s.place.index + text.length + 2, s.place.line + 1, 0⟩
      keyAllowed := true } := by
  have hgap : s.gapEnd = s.place.skip (text.length + 1) := by
    unfold gapEnd
    rw [Cursor.pastMark_of_head (by rw [hrest]; exact nofun), Cursor.skipWhile_of_head,
      Cursor.skipComment_of_hash hrest htext]
    rw [hrest]
    exact Bool.and_false _
  have hend : s.gapEnd.rest = '\n' :: more := by
    rw [hgap, Cursor.skip_rest, hrest, List.drop_succ_cons, List.drop_left]
  rw [settle_of_gapEnd (by rw [hend]; rfl), Cursor.takeBreak_of_newline hend, hgap, hflow,
    Bool.not_false, Bool.or_true]
  rfl

end Scanner

end StreamQuery.Yaml
