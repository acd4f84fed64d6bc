import StreamQuery.Text.Letter
import StreamQuery.Proofs.Value.Texts
set_option autoImplicit false

/-!
# Upper case: the theory

On ASCII texts the full upper case is the ASCII one (`upper_of_isAscii`).  Outside
ASCII ten characters have capitals inside it (`borrowed`), and no others do
(`isAscii_upper_iff`).  So a kind is named by ASCII texts in any case, and by the
texts that put one of the ten for its capitals; no other text names one
(`Kind.parse_of_isAscii`, `Kind.isAscii_or_borrowed`).  A truth is read off a word in
the same way, among blanks (`Value.truthOfWord?_padded`).
-/

namespace StreamQuery

namespace Text

variable {c : Char} {s word text : String}

/-! ## The table -/

namespace LetterRun

variable {r : LetterRun} {letter code : Nat}

/-- The capitals of a run are characters: no one of them is a surrogate or too large. -/
def Proper (r : LetterRun) : Prop :=
  r.last + r.offset < 0xD800 ∨
    0xDFFF < r.first + r.offset ∧ r.last + r.offset < 0x110000

instance (r : LetterRun) : Decidable r.Proper := inferInstanceAs (Decidable (_ ∨ _))

theorem capital?_eq_some (h : r.capital? letter = some code) :
    r.first ≤ letter ∧ letter ≤ r.last ∧ code = (letter + r.offset).toNat := by
  unfold capital? at h
  split at h
  case isTrue hletter =>
    exact ⟨hletter.1, hletter.2.1, (Option.some.inj h).symm⟩
  case isFalse => cases h

theorem Proper.isValidChar (hproper : r.Proper) (h : r.capital? letter = some code) :
    code.isValidChar := by
  obtain ⟨hfirst, hlast, rfl⟩ := capital?_eq_some h
  unfold Proper at hproper
  unfold Nat.isValidChar
  omega

end LetterRun

theorem proper_of_mem_capitalRuns : ∀ r ∈ capitalRuns, r.Proper := by decide +kernel

/-- The capitals of a sequence are characters. -/
theorem toNat_ofNat_of_sequence {n code : Nat} {codes : List Nat}
    (h : (n, codes) ∈ capitalSequences) (hcode : code ∈ codes) :
    (Char.ofNat code).toNat = code := by
  have hproper : ∀ p ∈ capitalSequences, ∀ code ∈ p.2, code < 0xD800 := by decide +kernel
  rw [Char.toNat_ofNat, if_pos (Or.inl (hproper _ h code hcode))]

/-- A character has a sequence of capitals, or one capital, or itself. -/
theorem upperChar_cases (c : Char) :
    (∃ codes, (c.toNat, codes) ∈ capitalSequences ∧ upperChar c = codes.map Char.ofNat) ∨
      (∃ r ∈ capitalRuns, ∃ code, r.capital? c.toNat = some code ∧
        upperChar c = [Char.ofNat code]) ∨
      upperChar c = [c] := by
  unfold upperChar
  split
  case h_1 codes hlookup =>
    obtain ⟨before, after, htable, -⟩ := List.lookup_eq_some_iff.1 hlookup
    exact Or.inl ⟨codes, by rw [htable]; exact List.mem_append_right _ List.mem_cons_self, rfl⟩
  case h_2 =>
    split
    case h_1 code hrun =>
      obtain ⟨r, hr, hcode⟩ := List.exists_of_findSome?_eq_some hrun
      exact Or.inr (Or.inl ⟨r, hr, code, hcode, rfl⟩)
    case h_2 => exact Or.inr (Or.inr rfl)

/-! ## ASCII -/

/-- A text of ASCII characters alone. -/
def IsAscii (s : String) : Prop := ∀ c ∈ s.toList, c.toNat < 128

/-- Every sequence is of a letter outside ASCII. -/
theorem lookup_capitalSequences {n : Nat} (h : n < 128) : capitalSequences.lookup n = none := by
  have hbeyond : ∀ p ∈ capitalSequences, 128 ≤ p.1 := by decide +kernel
  refine List.lookup_eq_none_iff.2 fun p hp => bne_iff_ne.2 ?_
  have := hbeyond p hp
  omega

/-- The small ASCII letters are the first run, and every other run lies outside ASCII. -/
theorem findSome?_capitalRuns {n : Nat} (h : n < 128) :
    capitalRuns.findSome? (·.capital? n) = LetterRun.capital? ⟨0x61, 0x7A, 1, -32⟩ n := by
  have hbeyond : ∀ r ∈ capitalRuns.tail, 128 ≤ r.first := by decide +kernel
  have hnone : capitalRuns.tail.findSome? (·.capital? n) = none := by
    refine List.findSome?_eq_none_iff.2 fun r hr => if_neg fun hletter => ?_
    have := hbeyond r hr
    omega
  show (LetterRun.mk 0x61 0x7A 1 (-32) :: capitalRuns.tail).findSome? (·.capital? n) = _
  rw [List.findSome?_cons, hnone]
  split
  case h_1 hsome => exact hsome.symm
  case h_2 hfirst => exact hfirst.symm

/-- The capital of an ASCII character is its ASCII capital. -/
theorem upperChar_of_isAscii (h : c.toNat < 128) : upperChar c = [c.toUpper] := by
  have hcapital : ∀ n < 128, ((LetterRun.capital? ⟨0x61, 0x7A, 1, -32⟩ n).getD n)
      = (Char.ofNat n).toUpper.toNat := by
    decide
  have hc := congrArg Char.ofNat (hcapital c.toNat h)
  rw [Char.ofNat_toNat, Char.ofNat_toNat] at hc
  rw [upperChar, lookup_capitalSequences h, findSome?_capitalRuns h, ← hc]
  cases LetterRun.capital? ⟨0x61, 0x7A, 1, -32⟩ c.toNat with
  | some code => rfl
  | none => rw [Option.getD_none, Char.ofNat_toNat]

/-- The upper case of an ASCII text is the ASCII one. -/
theorem upper_of_isAscii (h : IsAscii s) : upper s = upperAscii s := by
  rw [upper, upperAscii, ← List.flatMap_singleton' (s.toList.map Char.toUpper), List.flatMap_map]
  exact congrArg String.ofList (List.flatMap_congr fun c hc => upperChar_of_isAscii (h c hc))

/-! ## Borrowed letters -/

/-- The characters outside ASCII whose capitals are ASCII letters. -/
def borrowed : List Char := ['ß', 'ı', 'ſ', 'ﬀ', 'ﬁ', 'ﬂ', 'ﬃ', 'ﬄ', 'ﬅ', 'ﬆ']

/-- Every sequence but those of the borrowed letters goes outside ASCII. -/
theorem borrowed_of_sequence : ∀ p ∈ capitalSequences,
    (∃ code ∈ p.2, 128 ≤ code) ∨ Char.ofNat p.1 ∈ borrowed := by
  decide +kernel

theorem all_borrowed : borrowed.all fun c => (upperChar c).all (·.toNat < 128) := by
  decide +kernel

/-- The runs whose capitals reach into ASCII are the ASCII letters and single borrowed ones. -/
theorem borrowed_of_capital? {r : LetterRun} {code : Nat} (hr : r ∈ capitalRuns)
    (h : r.capital? c.toNat = some code) (hcode : (Char.ofNat code).toNat < 128) :
    c.toNat < 128 ∨ c ∈ borrowed := by
  have hruns : ∀ r ∈ capitalRuns, 128 ≤ r.first + r.offset ∨ r.last < 128 ∨
      (r.first = r.last ∧ Char.ofNat r.first ∈ borrowed) := by
    decide +kernel
  rw [Char.toNat_ofNat, if_pos ((proper_of_mem_capitalRuns r hr).isValidChar h)] at hcode
  obtain ⟨hfirst, hlast, rfl⟩ := LetterRun.capital?_eq_some h
  rcases hruns r hr with hbeyond | hascii | ⟨hsingle, hborrowed⟩
  · omega
  · exact Or.inl (by omega)
  · have hletter : r.first = c.toNat := by omega
    rw [hletter, Char.ofNat_toNat] at hborrowed
    exact Or.inr hborrowed

/-- A character has its capitals in ASCII exactly if it is there itself or is borrowed. -/
theorem upperChar_isAscii_iff :
    (∀ d ∈ upperChar c, d.toNat < 128) ↔ c.toNat < 128 ∨ c ∈ borrowed := by
  constructor
  · intro h
    rcases upperChar_cases c with ⟨codes, hmem, hcodes⟩ | ⟨r, hr, code, hcode, hupper⟩ | hself
    · rw [hcodes] at h
      rcases borrowed_of_sequence _ hmem with ⟨code, hcode, hbeyond⟩ | hborrowed
      · have hascii := h _ (List.mem_map_of_mem hcode)
        rw [toNat_ofNat_of_sequence hmem hcode] at hascii
        exact absurd hascii (Nat.not_lt.2 hbeyond)
      · rw [Char.ofNat_toNat] at hborrowed
        exact Or.inr hborrowed
    · rw [hupper] at h
      exact borrowed_of_capital? hr hcode (h _ List.mem_cons_self)
    · rw [hself] at h
      exact Or.inl (h c List.mem_cons_self)
  · rintro (hascii | hborrowed)
    · have hcapital : ∀ n < 128, (Char.ofNat n).toUpper.toNat < 128 := by decide
      have := hcapital c.toNat hascii
      rw [Char.ofNat_toNat] at this
      rw [upperChar_of_isAscii hascii]
      exact List.forall_mem_singleton.2 this
    · have hcapitals := List.all_eq_true.1 all_borrowed c hborrowed
      exact fun d hd => of_decide_eq_true (List.all_eq_true.1 hcapitals d hd)

/-- The upper case of a text lies in ASCII exactly if its characters are there or are borrowed. -/
theorem isAscii_upper_iff :
    IsAscii (upper s) ↔ ∀ c ∈ s.toList, c.toNat < 128 ∨ c ∈ borrowed := by
  rw [IsAscii, upper, String.toList_ofList, List.forall_mem_flatMap]
  exact forall₂_congr fun c _ => upperChar_isAscii_iff

end Text

/-! ## Kinds by name -/

namespace Kind

open Text

variable {k : Kind} {text : String} {e : QueryError}

/-- A kind is read off its name in capitals, and a text with other capitals is refused; the
message has the capitals. -/
theorem parse_eq (text : String) : parse text = match ofCapitals? (upper text) with
    | some kind => .ok kind
    | none => .error (.typeMismatch "a field kind" "unknown" (some (upper text))) := rfl

theorem parse_eq_ok_iff : parse text = .ok k ↔ ofCapitals? (upper text) = some k := by
  rw [parse_eq]
  cases ofCapitals? (upper text) with
  | some kind => rw [Except.ok.injEq, Option.some.injEq]
  | none => exact iff_of_false (fun h => nomatch h) fun h => nomatch h

/-- An ASCII text names a kind in any case. -/
theorem parse_of_isAscii (h : IsAscii text) :
    parse text = .ok k ↔ ofCapitals? (upperAscii text) = some k := by
  rw [parse_eq_ok_iff, upper_of_isAscii h]

/-- The names of kinds are ASCII texts. -/
theorem isAscii_of_ofCapitals? (h : ofCapitals? text = some k) : IsAscii text := by
  unfold ofCapitals? at h
  split at h
  case h_16 => cases h
  all_goals simp [IsAscii]

/-- A text that names a kind is of ASCII characters and borrowed ones. -/
theorem isAscii_or_borrowed (h : parse text = .ok k) :
    ∀ c ∈ text.toList, c.toNat < 128 ∨ c ∈ borrowed :=
  isAscii_upper_iff.1 (isAscii_of_ofCapitals? (parse_eq_ok_iff.1 h))

example : parse "ﬂoat" = .ok .float := by decide +kernel

end Kind

/-! ## Truths by word -/

namespace Value

open Text

variable {b : Bool} {word text : String}

/-- The words for a truth value, in capitals. -/
def truthWords : Bool → List String
  | true => ["TRUE", "T", "1"]
  | false => ["FALSE", "F", "0"]

theorem truthOfWord?_eq_some_iff :
    truthOfWord? text = some b ↔ upper (trim text) ∈ truthWords b := by
  unfold truthOfWord?
  split
  case h_7 htrue ht hone hfalse hf hzero =>
    refine iff_of_false (fun h => nomatch h) fun h => ?_
    cases b with
    | false =>
      simp only [truthWords, List.mem_cons, List.not_mem_nil, or_false] at h
      rcases h with h | h | h
      · exact hfalse h
      · exact hf h
      · exact hzero h
    | true =>
      simp only [truthWords, List.mem_cons, List.not_mem_nil, or_false] at h
      rcases h with h | h | h
      · exact htrue h
      · exact ht h
      · exact hone h
  all_goals
    rename_i h
    rw [h]
    cases b <;> decide

theorem toUpper_of_isBlank {c : Char} (h : isBlank c = true) : c.toUpper = c := by
  unfold Char.toUpper
  refine dif_neg fun hlower => ?_
  have hlo : 97 ≤ c.toNat := UInt32.le_iff_toNat_le.1 hlower.1
  have hhi : c.toNat ≤ 122 := UInt32.le_iff_toNat_le.1 hlower.2
  simp only [isBlank, Bool.or_eq_true, Bool.and_eq_true, decide_eq_true_eq, beq_iff_eq] at h
  omega

/-- A truth value is read off its words, in any ASCII case and among blanks. -/
theorem truthOfWord?_padded (hword : upperAscii word ∈ truthWords b) (hascii : IsAscii word)
    (h : Padded word text) : truthOfWord? text = some b := by
  have hwords : ∀ b, ∀ w ∈ truthWords b, IsWord w := by
    intro b w hw
    cases b <;>
      simp only [truthWords, List.mem_cons, List.not_mem_nil, or_false] at hw <;>
      obtain rfl | rfl | rfl := hw <;> exact ⟨by decide, by simp [isBlank]⟩
  have hplain : IsWord word := IsWord.of_map (fun _ => toUpper_of_isBlank) (hwords b _ hword)
  rw [truthOfWord?_eq_some_iff, h.trim_eq hplain, upper_of_isAscii hascii]
  exact hword

end Value

end StreamQuery
