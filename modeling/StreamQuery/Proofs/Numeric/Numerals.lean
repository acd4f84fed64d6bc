import StreamQuery.Proofs.Json.Integers
set_option autoImplicit false

/-!
# Decimal numerals

The digits of a number are read as that number, whatever zeros stand in front of them, and the text
of an integer is read as that integer (`readInt?_toString`).  A reader for a word refuses the text
of an integer exactly if the word cannot hold it.
-/

namespace StreamQuery.Numeric

/-! ## Digits -/

theorem digitsValue_zeros (zeros : Nat) (ds : List Char) :
    digitsValue (List.replicate zeros '0' ++ ds) = digitsValue ds := by
  induction zeros with
  | zero => rfl
  | succ n ih => exact ih

theorem isDigit_of_mem_zeros {zeros i : Nat} {c : Char}
    (h : c ∈ List.replicate zeros '0' ++ Json.digits i) : c.isDigit = true := by
  rcases List.mem_append.1 h with h | h
  · rw [List.eq_of_mem_replicate h]
    rfl
  · exact Json.isDigit_of_mem_digits h

theorem readNat?_zeros (zeros i : Nat) :
    readNat? (List.replicate zeros '0' ++ Json.digits i) = some i := by
  have hne : List.replicate zeros '0' ++ Json.digits i ≠ [] :=
    List.append_ne_nil_of_right_ne_nil _ Nat.toDigits_ne_nil
  rw [readNat?, if_pos ⟨hne, List.all_eq_true.2 fun c hc => isDigit_of_mem_zeros hc⟩,
    digitsValue_zeros, Json.digitsValue_digits]

theorem readNat?_digits (n : Nat) : readNat? (Json.digits n) = some n :=
  readNat?_zeros 0 n

theorem readUnsigned?_of_isDigit {cs : List Char} (h : ∀ c ∈ cs, c.isDigit = true) :
    readUnsigned? cs = readNat? cs := by
  unfold readUnsigned?
  split
  · cases h '+' List.mem_cons_self
  · rfl

/-! ## Integers -/

theorem readInt?_digits (n : Nat) : readInt? (Json.digits n) = some (n : Int) := by
  unfold readInt?
  split
  · rename_i hd
    exact absurd rfl (Json.digits_ne_sign n hd).1
  · rw [readUnsigned?_of_isDigit fun c => Json.isDigit_of_mem_digits, readNat?_digits]
    rfl

theorem readInt?_minus_digits (n : Nat) : readInt? ('-' :: Json.digits n) = some (-(n : Int)) := by
  rw [readInt?, readNat?_digits]
  rfl

/-- The text of an integer is read as the integer. -/
theorem readInt?_toString (n : Int) : readInt? (toString n).toList = some n := by
  rw [Json.toList_toString]
  split
  · rename_i hn
    rw [readInt?_digits, Int.toNat_of_nonneg hn]
  · rename_i hn
    rw [readInt?_minus_digits, Int.toNat_of_nonneg (by omega), Int.neg_neg]

theorem readIntIn?_toString (lo hi n : Int) :
    readIntIn? lo hi (toString n).toList = if lo ≤ n ∧ n ≤ hi then some n else none := by
  rw [readIntIn?, readInt?_toString, Option.filter_some]
  simp only [decide_eq_true_eq]

theorem readInt32?_toString (n : Int) : readInt32? (toString n).toList =
    if -2 ^ 31 ≤ n ∧ n < 2 ^ 31 then some (Int32.ofInt n) else none := by
  have hrange : Int32.minValue.toInt ≤ n ∧ n ≤ Int32.maxValue.toInt ↔ -2 ^ 31 ≤ n ∧ n < 2 ^ 31 := by
    rw [Int32.toInt_minValue, Int32.toInt_maxValue]
    omega
  rw [readInt32?, readIntIn?_toString, apply_ite (Option.map Int32.ofInt)]
  simp only [hrange, Option.map_some, Option.map_none]

theorem readInt64?_toString (n : Int) : readInt64? (toString n).toList =
    if -2 ^ 63 ≤ n ∧ n < 2 ^ 63 then some (Int64.ofInt n) else none := by
  have hrange : Int64.minValue.toInt ≤ n ∧ n ≤ Int64.maxValue.toInt ↔ -2 ^ 63 ≤ n ∧ n < 2 ^ 63 := by
    rw [Int64.toInt_minValue, Int64.toInt_maxValue]
    omega
  rw [readInt64?, readIntIn?_toString, apply_ite (Option.map Int64.ofInt)]
  simp only [hrange, Option.map_some, Option.map_none]

end StreamQuery.Numeric
