import StreamQuery.Proofs.Json.Scanning
import StreamQuery.Json.Form
set_option autoImplicit false

/-!
# Integers in JSON

An integer that fits a 64-bit word, signed or not, is written as a lexeme that denotes it.
-/

namespace StreamQuery.Json

/-! ## Decimal digits -/

/-- The decimal digits of a number. -/
def digits (n : Nat) : List Char := Nat.toDigits 10 n

theorem isDigit_of_mem_digits {n : Nat} {c : Char} (h : c ∈ digits n) : c.isDigit = true :=
  Nat.isDigit_of_mem_toDigits (by decide) (by decide) h

theorem takeWhile_digits (n : Nat) : (digits n).takeWhile Char.isDigit = digits n := by
  have h : (digits n ++ []).takeWhile Char.isDigit = digits n ++ [].takeWhile Char.isDigit :=
    List.takeWhile_append_of_pos fun _ => isDigit_of_mem_digits
  rwa [List.takeWhile_nil, List.append_nil] at h

theorem dropWhile_digits (n : Nat) : (digits n).dropWhile Char.isDigit = [] := by
  have h : (digits n ++ []).dropWhile Char.isDigit = [].dropWhile Char.isDigit :=
    List.dropWhile_append_of_pos fun _ => isDigit_of_mem_digits
  rwa [List.dropWhile_nil, List.append_nil] at h

theorem digitsValue_digits (n : Nat) : Numeric.digitsValue (digits n) = n := by
  have h := Nat.ofDigitChars_ten_toDigits (n := n)
  rw [Nat.ofDigitChars_eq_foldl] at h
  exact h

/-- Only the number zero has a leading zero. -/
theorem digits_head {n : Nat} (h : 0 < n) : ∃ c rest, digits n = c :: rest ∧ c ≠ '0' := by
  induction n using Nat.strongRecOn with
  | _ n ih =>
    by_cases hn : n < 10
    · refine ⟨n.digitChar, [], Nat.toDigits_of_lt_base hn, ?_⟩
      rw [Ne, Nat.digitChar_eq_zero]
      omega
    · obtain ⟨c, rest, hdigits, hc⟩ := ih (n / 10) (by omega) (by omega)
      refine ⟨c, rest ++ [(n % 10).digitChar], ?_, hc⟩
      have hsplit := Nat.toDigits_of_base_le (b := 10) (n := n) (by decide) (by omega)
      rw [digits, hsplit, ← List.cons_append, ← hdigits]
      rfl

theorem isUnsignedNumber_digits (n : Nat) : isUnsignedNumber (digits n) = true := by
  unfold isUnsignedNumber
  rw [takeWhile_digits, dropWhile_digits]
  rcases Nat.eq_zero_or_pos n with rfl | hn
  · rfl
  · obtain ⟨c, rest, hdigits, hc⟩ := digits_head hn
    rw [hdigits]
    split
    · rename_i h
      cases h
    · rfl
    · rename_i h
      cases h
      exact absurd rfl hc
    · rfl

/-- Digits have no sign in front. -/
theorem digits_ne_sign (n : Nat) {c : Char} {rest : List Char} (h : digits n = c :: rest) :
    c ≠ '-' ∧ c ≠ '+' := by
  have hc : c.isDigit = true := isDigit_of_mem_digits (h ▸ List.mem_cons_self)
  constructor <;> rintro rfl <;> cases hc

theorem isNumber_digits (n : Nat) : isNumber (digits n) = true := by
  have h := isUnsignedNumber_digits n
  unfold isNumber
  split
  · rename_i hd
    exact absurd rfl (digits_ne_sign n hd).1
  · exact h

theorem takeSign_digits (n : Nat) : Numeric.takeSign (digits n) = (false, digits n) := by
  unfold Numeric.takeSign
  split
  · rename_i hd
    exact absurd rfl (digits_ne_sign n hd).1
  · rename_i hd
    exact absurd rfl (digits_ne_sign n hd).2
  · rfl

/-! ## Integers -/

/-- The characters of an integer: its digits, behind a minus when it is negative. -/
theorem toList_toString (n : Int) :
    (toString n).toList = if 0 ≤ n then digits n.toNat else '-' :: digits (-n).toNat := by
  rw [Int.toString_eq_repr, Int.repr_eq_if]
  split
  · rw [Nat.toList_repr]
    rfl
  · rw [String.toList_append, Nat.toList_repr]
    rfl

/-- The lexeme of an integer is a number. -/
theorem isNumber_toString (n : Int) : isNumber (toString n).toList = true := by
  rw [toList_toString]
  split
  · exact isNumber_digits _
  · exact isUnsignedNumber_digits _

/-- The lexeme of an integer that fits a word denotes the integer. -/
theorem lexemeInt?_toString {n : Int} (hlo : -2 ^ 63 ≤ n) (hhi : n < 2 ^ 64) :
    lexemeInt? (toString n).toList = some n := by
  rw [toList_toString]
  split
  · rename_i h
    have hparts : LexemeParts.of (digits n.toNat) = ⟨false, digits n.toNat, none, none⟩ := by
      simp only [LexemeParts.of, takeSign_digits, takeWhile_digits, dropWhile_digits]
    have hlt : n.toNat < 2 ^ 64 := by omega
    simp only [lexemeInt?, hparts, digitsValue_digits, Option.isNone_none, and_self, if_true,
      Bool.false_eq_true, if_false, if_pos hlt]
    rw [Int.toNat_of_nonneg h]
  · rename_i h
    have hparts : LexemeParts.of ('-' :: digits (-n).toNat)
        = ⟨true, digits (-n).toNat, none, none⟩ := by
      simp only [LexemeParts.of, Numeric.takeSign, takeWhile_digits, dropWhile_digits]
    have hrange : 0 < (-n).toNat ∧ (-n).toNat ≤ 2 ^ 63 := by omega
    simp only [lexemeInt?, hparts, digitsValue_digits, Option.isNone_none, and_self, if_true,
      if_pos hrange]
    rw [Int.toNat_of_nonneg (by omega), Int.neg_neg]

theorem written_ofInt (k : Nat) (n : Int) : Written k (ofInt n) :=
  .number (isNumber_toString n)

theorem asInt?_ofInt {n : Int} (hlo : -2 ^ 63 ≤ n) (hhi : n < 2 ^ 64) :
    (ofInt n).asInt? = some n :=
  lexemeInt?_toString hlo hhi

theorem asIntIn?_ofInt {lo hi n : Int} (hlo : lo ≤ n) (hhi : n ≤ hi) (hlo' : -2 ^ 63 ≤ lo)
    (hhi' : hi < 2 ^ 64) : (ofInt n).asIntIn? lo hi = some n := by
  rw [asIntIn?, asInt?_ofInt (by omega) (by omega), Option.filter_some_pos]
  exact decide_eq_true ⟨hlo, hhi⟩

theorem asInt64?_ofInt (n : Int64) : (ofInt n.toInt).asInt64? = some n := by
  have hlo := n.le_toInt
  have hhi := n.toInt_lt
  rw [asInt64?, asIntIn?_ofInt (by omega) (by omega) (by decide) (by decide), Option.map_some,
    Int64.ofInt_toInt]

theorem asInt32?_ofInt (n : Int32) : (ofInt n.toInt).asInt32? = some n := by
  have hlo := n.le_toInt
  have hhi := n.toInt_lt
  rw [asInt32?, asIntIn?_ofInt (by omega) (by omega) (by decide) (by decide), Option.map_some,
    Int32.ofInt_toInt]

theorem asNat?_ofNat {n : Nat} (h : n < 2 ^ 64) : (ofNat n).asNat? = some n := by
  rw [asNat?, ofNat, asIntIn?_ofInt (by omega) (by omega) (by decide) (by decide)]
  rfl

/-! ## Words as names -/

/-- The name of a word can stand between quotes. -/
theorem quotable_wordName (w : UInt64) : Quotable (JsonForm.wordName w) := by
  have hdigit : ∀ c : Char, c.isDigit = true → Quotable [c.toUInt8] := by
    intro c hc
    have hc' := isDigit_iff.1 hc
    have hchar := charOf_toUInt8 (toNat_lt_of_isNumberChar (isNumberChar_of_isDigit hc))
    refine quotable_singleton ?_ ?_ ?_
    · intro he
      rw [he] at hchar
      subst hchar
      cases hc
    · intro he
      rw [he] at hchar
      subst hchar
      cases hc
    · intro hlt
      have hn : c.toUInt8.toNat = c.toNat := by
        show c.toNat % 256 = c.toNat
        omega
      have : c.toUInt8.toNat < 0x20 := UInt8.lt_iff_toNat_lt.1 hlt
      omega
  have hall : ∀ cs : List Char, (∀ c ∈ cs, c.isDigit = true) → Quotable (asciiBytes cs) := by
    intro cs hcs
    induction cs with
    | nil => exact quotable_nil
    | cons c rest ih =>
      have hrest := ih fun c hc => hcs c (List.mem_cons_of_mem _ hc)
      exact (hdigit c (hcs c List.mem_cons_self)).append hrest
  have hname : JsonForm.wordName w = asciiBytes (digits w.toNat) := by
    show asciiBytes (Nat.repr w.toNat).toList = _
    rw [Nat.toList_repr]
    rfl
  rw [hname]
  exact hall _ fun c hc => isDigit_of_mem_digits hc

theorem map_charOf_asciiBytes {cs : List Char} (h : ∀ c ∈ cs, isNumberChar c = true) :
    (asciiBytes cs).map charOf = cs := by
  rw [asciiBytes, List.map_map]
  conv => rhs; rw [← List.map_id cs]
  exact List.map_congr_left fun c hc => charOf_toUInt8 (toNat_lt_of_isNumberChar (h c hc))

/-- The name of a word stands for the word. -/
theorem wordOfName?_wordName (w : UInt64) :
    JsonForm.wordOfName? (JsonForm.wordName w) = some w := by
  have hint := lexemeInt?_toString (n := (w.toNat : Int)) (by omega) (by have := w.toNat_lt; omega)
  have hlexeme : (JsonForm.wordName w).map charOf = (toString (w.toNat : Int)).toList :=
    map_charOf_asciiBytes fun c hc =>
      List.all_eq_true.1 (all_isNumberChar_of_isNumber (isNumber_toString w.toNat)) c hc
  simp only [JsonForm.wordOfName?, hlexeme, isNumber_toString, if_true, hint, Option.bind_some]
  rw [if_pos (by omega), Int.toNat_natCast, UInt64.ofNat_toNat]

end StreamQuery.Json
