import StreamQuery.Json
set_option autoImplicit false

/-!
# Scanning what was written

The bytes of a value scan to its tokens, whenever its numbers and strings are written as
JSON has them.  A number or a word ends only where the next byte shows it, so a scanner
that has read a value may still hold its last token: what it has scanned is what it would
have if the bytes ended here.
-/

namespace StreamQuery.Json

/-! ## Lexemes of numbers -/

theorem charOf_toUInt8 {c : Char} (h : c.toNat < 256) : charOf c.toUInt8 = c := by
  have hn : c.toUInt8.toNat = c.toNat := by
    show c.toNat % 256 = c.toNat
    exact Nat.mod_eq_of_lt h
  rw [charOf, hn, Char.ofNat_toNat]

theorem isDigit_iff {c : Char} : c.isDigit = true ↔ 48 ≤ c.toNat ∧ c.toNat ≤ 57 := by
  rw [Char.isDigit, Bool.and_eq_true, decide_eq_true_eq, decide_eq_true_eq]
  exact Iff.rfl

theorem isNumberChar_of_isDigit {c : Char} (h : c.isDigit = true) : isNumberChar c = true := by
  simp [isNumberChar, h]

/-- The characters of numbers are single bytes. -/
theorem toNat_lt_of_isNumberChar {c : Char} (h : isNumberChar c = true) : c.toNat < 256 := by
  simp only [isNumberChar, Bool.or_eq_true, beq_iff_eq, isDigit_iff] at h
  rcases h with ((((h | rfl) | rfl) | rfl) | rfl) | rfl
  · omega
  all_goals decide

theorem all_isNumberChar_of_isDigits {cs : List Char} (h : isDigits cs = true) :
    cs.all isNumberChar = true := by
  simp only [isDigits, Bool.and_eq_true, List.all_eq_true] at h ⊢
  exact fun c hc => isNumberChar_of_isDigit (h.2 c hc)

theorem all_isNumberChar_takeWhile (cs : List Char) :
    (cs.takeWhile Char.isDigit).all isNumberChar = true := by
  rw [List.all_eq_true]
  intro c hc
  exact isNumberChar_of_isDigit (List.all_eq_true.1 List.all_takeWhile c hc)

theorem all_isNumberChar_of_isExponentPart {cs : List Char} (h : isExponentPart cs = true) :
    cs.all isNumberChar = true := by
  cases cs with
  | nil => rfl
  | cons c rest =>
    simp only [isExponentPart, Bool.and_eq_true, Bool.or_eq_true, beq_iff_eq] at h
    obtain ⟨hc, hrest⟩ := h
    have hc' : isNumberChar c = true := by
      rcases hc with rfl | rfl <;> decide
    rw [List.all_cons, hc', Bool.true_and]
    split at hrest
    · rw [List.all_cons, all_isNumberChar_of_isDigits hrest]
      decide
    · rw [List.all_cons, all_isNumberChar_of_isDigits hrest]
      decide
    · exact all_isNumberChar_of_isDigits hrest

theorem all_isNumberChar_of_isFractionPart {cs : List Char} (h : isFractionPart cs = true) :
    cs.all isNumberChar = true := by
  unfold isFractionPart at h
  split at h
  · rename_i rest
    rw [Bool.and_eq_true] at h
    rw [List.all_cons, ← rest.takeWhile_append_dropWhile (p := Char.isDigit), List.all_append,
      all_isNumberChar_takeWhile, all_isNumberChar_of_isExponentPart h.2]
    decide
  · exact all_isNumberChar_of_isExponentPart h

/-- A number is digits and more, or a minus before that. -/
theorem isUnsignedNumber_cases {cs : List Char} (h : isUnsignedNumber cs = true) :
    (∃ c rest, cs = c :: rest ∧ c.isDigit = true) ∧
      isFractionPart (cs.dropWhile Char.isDigit) = true := by
  cases cs with
  | nil => cases h
  | cons c rest =>
    unfold isUnsignedNumber at h
    cases hc : c.isDigit with
    | false =>
      rw [List.takeWhile_cons, hc] at h
      cases h
    | true =>
      refine ⟨⟨c, rest, rfl, hc⟩, ?_⟩
      split at h
      · cases h
      · exact h
      · cases h
      · exact h

theorem all_isNumberChar_of_isUnsignedNumber {cs : List Char} (h : isUnsignedNumber cs = true) :
    cs.all isNumberChar = true := by
  rw [← cs.takeWhile_append_dropWhile (p := Char.isDigit), List.all_append,
    all_isNumberChar_takeWhile,
    all_isNumberChar_of_isFractionPart (isUnsignedNumber_cases h).2]
  rfl

theorem all_isNumberChar_of_isNumber {cs : List Char} (h : isNumber cs = true) :
    cs.all isNumberChar = true := by
  unfold isNumber at h
  split at h
  · rw [List.all_cons, all_isNumberChar_of_isUnsignedNumber h]
    decide
  · exact all_isNumberChar_of_isUnsignedNumber h

/-- A number starts with a minus or a digit. -/
theorem isNumber_head {cs : List Char} (h : isNumber cs = true) :
    ∃ c rest, cs = c :: rest ∧ (c = '-' ∨ c.isDigit = true) := by
  unfold isNumber at h
  split at h
  · rename_i rest
    exact ⟨'-', rest, rfl, .inl rfl⟩
  · obtain ⟨⟨c, rest, hcs, hc⟩, -⟩ := isUnsignedNumber_cases h
    exact ⟨c, rest, hcs, .inr hc⟩

/-! ## Lexemes of strings -/

/-- Bytes that can stand between quotes: a scanner between quotes takes them and stays there. -/
def Quotable (bs : Bytes) : Prop :=
  ∀ (ts : List Token) (before : Bytes),
    bs.foldlM Scanner.step ⟨ts, .quoted before⟩ = some ⟨ts, .quoted (bs.reverse ++ before)⟩

theorem quotable_nil : Quotable [] := fun _ _ => rfl

theorem Quotable.append {bs more : Bytes} (h : Quotable bs) (h' : Quotable more) :
    Quotable (bs ++ more) := by
  intro ts before
  rw [List.foldlM_append, h ts before]
  show more.foldlM Scanner.step ⟨ts, .quoted (bs.reverse ++ before)⟩ = _
  rw [h' ts, List.reverse_append, List.append_assoc]

/-- A byte that is no quote, no backslash and no control character stands for itself. -/
theorem quotable_singleton {b : UInt8} (hq : b ≠ quote) (hs : b ≠ backslash) (hc : ¬ b < 0x20) :
    Quotable [b] := by
  intro ts before
  simp only [List.foldlM_cons, List.foldlM_nil, Scanner.step, Scanner.quotedStep, if_neg hq,
    if_neg hs, if_neg hc]
  rfl

theorem isSome_hexValue?_hexDigit {b : UInt8} (h : b < 0x20) :
    (Numeric.hexValue? (charOf (hexDigit (b.toNat / 16)))).isSome = true ∧
      (Numeric.hexValue? (charOf (hexDigit (b.toNat % 16)))).isSome = true :=
  forall_byte_lt (p := fun b =>
    (Numeric.hexValue? (charOf (hexDigit (b.toNat / 16)))).isSome = true ∧
      (Numeric.hexValue? (charOf (hexDigit (b.toNat % 16)))).isSome = true) 0x20 (by decide) b h

theorem quotable_codeEscape {b : UInt8} (h : b < 0x20) : Quotable (codeEscape b) := by
  intro ts before
  obtain ⟨hhigh, hlow⟩ := isSome_hexValue?_hexDigit h
  have hstart : [backslash, 'u'.toUInt8, '0'.toUInt8, '0'.toUInt8].foldlM Scanner.step
      ⟨ts, .quoted before⟩
      = some ⟨ts, .code ('0'.toUInt8 :: '0'.toUInt8 :: 'u'.toUInt8 :: backslash :: before) 2⟩ := rfl
  have hsplit : codeEscape b = [backslash, 'u'.toUInt8, '0'.toUInt8, '0'.toUInt8]
      ++ [hexDigit (b.toNat / 16), hexDigit (b.toNat % 16)] := rfl
  rw [hsplit, List.foldlM_append, hstart]
  simp only [Option.bind_eq_bind, Option.bind_some, List.foldlM_cons, List.foldlM_nil,
    Scanner.step, Scanner.codeStep, hhigh, hlow, if_true]
  rfl

theorem quotable_quotedByte (b : UInt8) : Quotable (quotedByte b) := by
  rcases quotedByte_cases b with ⟨h, hs⟩ | ⟨u, h, hu, hl, -⟩ | ⟨h, hb⟩
  · rw [h]
    unfold quotedByte at h
    split at h
    · cases h
    · rename_i hnone
      split at h
      · cases h
      · rename_i hc
        refine quotable_singleton ?_ hs hc
        rintro rfl
        cases hnone
  · rw [h]
    intro ts before
    have hu' : charOf u ≠ 'u' := by
      intro he
      apply hu
      rw [← he, toUInt8_charOf]
    have hl' : (ofEscapeLetter? (charOf u)).isSome = true := by rw [hl]; rfl
    have hstart : Scanner.step ⟨ts, .quoted before⟩ backslash
        = some ⟨ts, .escape (backslash :: before)⟩ := rfl
    show (Scanner.step ⟨ts, .quoted before⟩ backslash).bind ([u].foldlM Scanner.step) = _
    rw [hstart]
    simp only [Option.bind_some, List.foldlM_cons, List.foldlM_nil, Scanner.step,
      Scanner.escapeStep, if_neg hu', hl', if_true]
    rfl
  · rw [h]
    exact quotable_codeEscape hb

theorem quotable_flatMap_quotedByte (bs : Bytes) : Quotable (bs.flatMap quotedByte) := by
  induction bs with
  | nil => exact quotable_nil
  | cons b rest ih =>
    rw [List.flatMap_cons]
    exact (quotable_quotedByte b).append ih

/-- What stands between the quotes of a text can stand there. -/
theorem quotable_encodeText (s : String) : Quotable (encodeText s) :=
  quotable_flatMap_quotedByte _

/-! ## Values that can be written -/

/-- A value whose lexemes are written as JSON has them and that nests no deeper than `n`. -/
inductive Written : Nat → Json → Prop where
  | null {n : Nat} : Written n null
  | boolean {n : Nat} (b : Bool) : Written n (boolean b)
  | number {n : Nat} {lexeme : List Char} : isNumber lexeme = true → Written n (number lexeme)
  | string {n : Nat} {lexeme : Bytes} : Quotable lexeme → Written n (string lexeme)
  | array {n : Nat} {items : List Json} : (∀ j ∈ items, Written n j) → Written (n + 1) (array items)
  | object {n : Nat} {members : List (Bytes × Json)} :
    (∀ m ∈ members, Quotable m.1) → (∀ m ∈ members, Written n m.2) →
      Written (n + 1) (object members)

/-! ## One token -/

namespace Scanner

/-- A punctuation mark ends whatever token is held. -/
theorem step_of_finish {s : Scanner} {ts : List Token} (h : s.finish = some ts) {b : UInt8}
    (hl : (charOf b).isLower = false) (hn : isNumberChar (charOf b) = false) :
    s.step b = (Scanner.mk ts.reverse .between).startToken (charOf b) := by
  obtain ⟨tokens, mode⟩ := s
  cases mode with
  | between =>
    simp only [finish, Option.some.injEq] at h
    subst h
    rw [List.reverse_reverse]
    rfl
  | word letters =>
    simp only [finish, endWord, Option.map_map, Option.map_eq_some_iff] at h
    obtain ⟨t, ht, rfl⟩ := h
    simp only [step, hl, endWord, ht, Option.map_some, Option.bind_some, Function.comp, emit,
      List.reverse_reverse]
    rfl
  | number chars =>
    simp only [finish, endNumber] at h
    split at h
    · rename_i hnum
      simp only [Option.map_some, Option.some.injEq] at h
      subst h
      simp only [step, hn, endNumber, if_pos hnum, Option.bind_some, emit, List.reverse_reverse]
      rfl
    · cases h
  | quoted bytes => cases h
  | escape bytes => cases h
  | code bytes more => cases h

/-- The characters of a number are taken as they come. -/
theorem foldlM_number {cs : List Char} (h : cs.all isNumberChar = true) (ts : List Token)
    (before : List Char) :
    (asciiBytes cs).foldlM step ⟨ts, .number before⟩
      = some ⟨ts, .number (cs.reverse ++ before)⟩ := by
  induction cs generalizing before with
  | nil => rfl
  | cons c rest ih =>
    rw [List.all_cons, Bool.and_eq_true] at h
    have hc := charOf_toUInt8 (toNat_lt_of_isNumberChar h.1)
    have hstep : step ⟨ts, .number before⟩ c.toUInt8 = some ⟨ts, .number (c :: before)⟩ := by
      simp only [step, hc, h.1, if_true]
      rfl
    show (step ⟨ts, .number before⟩ c.toUInt8).bind ((asciiBytes rest).foldlM step) = _
    rw [hstep, Option.bind_some, ih h.2, List.reverse_cons, List.append_assoc]
    rfl

/-- A minus or a digit starts a number. -/
theorem startToken_number {c : Char} (h : c = '-' ∨ c.isDigit = true) (ts : List Token) :
    (Scanner.mk ts .between).startToken c = some ⟨ts, .number [c]⟩ := by
  have hne : ∀ d : Char, d ≠ '-' → d.isDigit = false → c ≠ d := by
    rintro d hd hd' rfl
    rcases h with rfl | h
    · exact hd rfl
    · rw [hd'] at h
      cases h
  have hspace : isSpace c = false := by
    simp [isSpace, hne ' ' (by decide) (by decide), hne '\n' (by decide) (by decide),
      hne '\t' (by decide) (by decide), hne '\r' (by decide) (by decide)]
  simp only [startToken, hspace, if_neg (hne '\x7b' (by decide) (by decide)),
    if_neg (hne '\x7d' (by decide) (by decide)), if_neg (hne '[' (by decide) (by decide)),
    if_neg (hne ']' (by decide) (by decide)), if_neg (hne ':' (by decide) (by decide)),
    if_neg (hne ',' (by decide) (by decide)), if_neg (hne '"' (by decide) (by decide)), if_pos h]
  rfl

theorem foldlM_string {lexeme : Bytes} (h : Quotable lexeme) (ts : List Token) :
    (Token.string lexeme).bytes.foldlM step ⟨ts, .between⟩
      = some ⟨.string lexeme :: ts, .between⟩ := by
  have hopen : step ⟨ts, .between⟩ quote = some ⟨ts, .quoted []⟩ := rfl
  have hclose : step ⟨ts, .quoted (lexeme.reverse ++ [])⟩ quote
      = some ⟨.string lexeme :: ts, .between⟩ := by
    simp only [step, quotedStep, if_true, List.append_nil, List.reverse_reverse]
    rfl
  show (step ⟨ts, .between⟩ quote).bind ((lexeme ++ [quote]).foldlM step) = _
  rw [hopen, Option.bind_some, List.foldlM_append, h ts []]
  show (step ⟨ts, .quoted (lexeme.reverse ++ [])⟩ quote).bind some = _
  rw [hclose]
  rfl

end Scanner

/-! ## All tokens -/

/-- What a scanner outside all tokens has scanned after more tokens. -/
def Scans (tokens : List Token) : Prop :=
  ∀ ts : List Token, ∃ s, (tokens.flatMap Token.bytes).foldlM Scanner.step ⟨ts, .between⟩ = some s ∧
    s.finish = some (ts.reverse ++ tokens)

/-- The same for a scanner that may still hold a token. -/
def ScansOn (tokens : List Token) : Prop :=
  ∀ (s : Scanner) (ts : List Token), s.finish = some ts →
    ∃ s', (tokens.flatMap Token.bytes).foldlM Scanner.step s = some s' ∧
      s'.finish = some (ts ++ tokens)

theorem ScansOn.scans {tokens : List Token} (h : ScansOn tokens) : Scans tokens :=
  fun ts => h ⟨ts, .between⟩ ts.reverse rfl

theorem scansOn_nil : ScansOn [] :=
  fun s ts h => ⟨s, rfl, by rw [List.append_nil]; exact h⟩

theorem Scans.append {tokens more : List Token} (h : Scans tokens) (h' : ScansOn more) :
    Scans (tokens ++ more) := by
  intro ts
  obtain ⟨s, hs, hfinish⟩ := h ts
  obtain ⟨s', hs', hfinish'⟩ := h' s _ hfinish
  refine ⟨s', ?_, by rw [hfinish', List.append_assoc]⟩
  rw [List.flatMap_append, List.foldlM_append, hs]
  exact hs'

/-- A punctuation mark is scanned from wherever a value has ended, and leaves no token held. -/
theorem Scans.punctuation {t : Token} {b : UInt8} (hb : t.bytes = [b])
    (hl : (charOf b).isLower = false) (hn : isNumberChar (charOf b) = false)
    (ht : ∀ ts, (Scanner.mk ts .between).startToken (charOf b) = some ⟨t :: ts, .between⟩)
    {more : List Token} (h : Scans more) : ScansOn (t :: more) := by
  intro s ts hfinish
  obtain ⟨s', hs', hfinish'⟩ := h (t :: ts.reverse)
  refine ⟨s', ?_, by simpa using hfinish'⟩
  rw [List.flatMap_cons, hb]
  show (s.step b).bind _ = _
  rw [Scanner.step_of_finish hfinish hl hn, ht]
  exact hs'

theorem scansOn_closeBracket : ScansOn [.closeBracket] :=
  scansOn_nil.scans.punctuation rfl rfl rfl fun _ => rfl

theorem scansOn_closeBrace : ScansOn [.closeBrace] :=
  scansOn_nil.scans.punctuation rfl rfl rfl fun _ => rfl

/-- The items of an array, from the second one on. -/
theorem scansOn_itemTokens {items : List Json} (h : ∀ j ∈ items, Scans j.tokens)
    {more : List Token} (hmore : ScansOn more) : ScansOn (itemTokens false items ++ more) := by
  induction items with
  | nil => exact hmore
  | cons j rest ih =>
    have hrest := ih fun j hj => h j (List.mem_cons_of_mem _ hj)
    have hj := (h j List.mem_cons_self).append hrest
    rw [← List.append_assoc] at hj
    exact hj.punctuation rfl rfl rfl fun _ => rfl

theorem scans_itemTokens {items : List Json} (h : ∀ j ∈ items, Scans j.tokens)
    {more : List Token} (hmore : ScansOn more) : Scans (itemTokens true items ++ more) := by
  cases items with
  | nil => exact hmore.scans
  | cons j rest =>
    have hrest := scansOn_itemTokens (fun j hj => h j (List.mem_cons_of_mem _ hj)) hmore
    have hj := (h j List.mem_cons_self).append hrest
    rw [← List.append_assoc] at hj
    exact hj

theorem scans_name {name : Bytes} (hname : Quotable name) {more : List Token} (h : Scans more) :
    Scans (.string name :: .colon :: more) := by
  intro ts
  have hcolon : ScansOn (.colon :: more) := h.punctuation rfl rfl rfl fun _ => rfl
  obtain ⟨s, hs, hfinish⟩ := hcolon ⟨.string name :: ts, .between⟩ _ rfl
  refine ⟨s, ?_, by simpa using hfinish⟩
  rw [List.flatMap_cons, List.foldlM_append, Scanner.foldlM_string hname]
  exact hs

/-- The members of an object, from the second one on. -/
theorem scansOn_memberTokens {members : List (Bytes × Json)} (hnames : ∀ m ∈ members, Quotable m.1)
    (h : ∀ m ∈ members, Scans m.2.tokens) {more : List Token} (hmore : ScansOn more) :
    ScansOn (memberTokens false members ++ more) := by
  induction members with
  | nil => exact hmore
  | cons m rest ih =>
    have hrest := ih (fun m hm => hnames m (List.mem_cons_of_mem _ hm))
      fun m hm => h m (List.mem_cons_of_mem _ hm)
    have hm := scans_name (hnames m List.mem_cons_self) ((h m List.mem_cons_self).append hrest)
    have hcomma : ScansOn (.comma :: .string m.1 :: .colon :: (m.2.tokens ++
        (memberTokens false rest ++ more))) := hm.punctuation rfl rfl rfl fun _ => rfl
    rw [← List.append_assoc] at hcomma
    exact hcomma

theorem scans_memberTokens {members : List (Bytes × Json)} (hnames : ∀ m ∈ members, Quotable m.1)
    (h : ∀ m ∈ members, Scans m.2.tokens) {more : List Token} (hmore : ScansOn more) :
    Scans (memberTokens true members ++ more) := by
  cases members with
  | nil => exact hmore.scans
  | cons m rest =>
    have hrest := scansOn_memberTokens (fun m hm => hnames m (List.mem_cons_of_mem _ hm))
      (fun m hm => h m (List.mem_cons_of_mem _ hm)) hmore
    have hm := scans_name (hnames m List.mem_cons_self) ((h m List.mem_cons_self).append hrest)
    rw [← List.append_assoc] at hm
    exact hm

theorem scans_open {t : Token} {more : List Token}
    (ht : ∀ ts, t.bytes.foldlM Scanner.step ⟨ts, .between⟩ = some ⟨t :: ts, .between⟩)
    (h : Scans more) : Scans (t :: more) := by
  intro ts
  obtain ⟨s, hs, hfinish⟩ := h (t :: ts)
  refine ⟨s, ?_, by simpa using hfinish⟩
  rw [List.flatMap_cons, List.foldlM_append, ht]
  exact hs

/-- The bytes of a value that can be written scan to its tokens. -/
theorem Written.scans {n : Nat} {j : Json} (h : Written n j) : Scans j.tokens := by
  induction h with
  | null =>
    intro ts
    exact ⟨⟨ts, .word ['l', 'l', 'u', 'n']⟩, rfl, by simp [Scanner.finish, Scanner.endWord,
      wordToken?, Scanner.emit, tokens]⟩
  | boolean b =>
    intro ts
    cases b with
    | false =>
      exact ⟨⟨ts, .word ['e', 's', 'l', 'a', 'f']⟩, rfl, by simp [Scanner.finish, Scanner.endWord,
        wordToken?, Scanner.emit, tokens]⟩
    | true =>
      exact ⟨⟨ts, .word ['e', 'u', 'r', 't']⟩, rfl, by simp [Scanner.finish, Scanner.endWord,
        wordToken?, Scanner.emit, tokens]⟩
  | @number n lexeme hnumber =>
    intro ts
    obtain ⟨c, rest, rfl, hc⟩ := isNumber_head hnumber
    have hall := all_isNumberChar_of_isNumber hnumber
    rw [List.all_cons, Bool.and_eq_true] at hall
    have hchar := charOf_toUInt8 (toNat_lt_of_isNumberChar hall.1)
    have hstart : Scanner.step ⟨ts, .between⟩ c.toUInt8 = some ⟨ts, .number [c]⟩ := by
      show (Scanner.mk ts .between).startToken (charOf c.toUInt8) = _
      rw [hchar, Scanner.startToken_number hc]
    refine ⟨⟨ts, .number (rest.reverse ++ [c])⟩, ?_, ?_⟩
    · show (asciiBytes (c :: rest) ++ []).foldlM Scanner.step ⟨ts, .between⟩ = _
      rw [List.append_nil]
      show (Scanner.step ⟨ts, .between⟩ c.toUInt8).bind
        ((asciiBytes rest).foldlM Scanner.step) = _
      rw [hstart, Option.bind_some, Scanner.foldlM_number hall.2]
    · have hreverse : (rest.reverse ++ [c]).reverse = c :: rest := by simp
      simp [Scanner.finish, Scanner.endNumber, hnumber, Scanner.emit, tokens]
  | string hquotable =>
    exact scans_open (Scanner.foldlM_string hquotable) scansOn_nil.scans
  | array _ ih =>
    exact scans_open (fun _ => rfl) (scans_itemTokens ih scansOn_closeBracket)
  | object hnames _ ih =>
    exact scans_open (fun _ => rfl) (scans_memberTokens hnames ih scansOn_closeBrace)

/-- Writing a value and scanning it gives its tokens. -/
theorem scan_bytes {n : Nat} {j : Json} (h : Written n j) : scan j.bytes = some j.tokens := by
  obtain ⟨s, hs, hfinish⟩ := h.scans []
  rw [scan, bytes, hs]
  exact hfinish

end StreamQuery.Json
