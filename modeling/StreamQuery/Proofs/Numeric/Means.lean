import Mathlib
import StreamQuery.Proofs.Numeric.Quotients
set_option autoImplicit false

/-!
# Means in double precision

A mean is the quotient of a sum and a count, which are rounded to double precision before they are
divided.  If neither is rounded, the mean does not pass an integer that the exact quotient does not
pass; each of the two that is rounded may move it by one place (`key_le_mean`,
`mean_le_key`).
-/

namespace StreamQuery.Numeric

/-- How often a natural number is rounded on its way to double precision: once if it has more digits
than a significand. -/
def roundings (n : Nat) : Nat := if 2 ^ 53 < n then 1 else 0

theorem roundings_le_one (n : Nat) : roundings n ≤ 1 := by
  unfold roundings
  split <;> omega

/-! ## Errors -/

section Errors

variable {x x' y y' u v w z p c d : ℚ}

/-- The errors of two factors add up.  The bound on the second factor is the sharper one, and makes
up for the product of the errors. -/
theorem mul_mul_le_of_errors (hy : 0 ≤ y) (hx' : 0 ≤ x') (hy' : 0 ≤ y') (hp : 0 < p) (hc : 0 ≤ c)
    (hc' : c ≤ 1) (hd : 0 ≤ d) (hxx : x * p ≤ x' * (p + c))
    (hyy : y * (p + 1) ≤ y' * (p + 1 + d)) : x * y * p ≤ x' * y' * (p + (c + d)) := by
  have hfactors : (p + c) * (p + 1 + d) ≤ (p + 1) * (p + (c + d)) := by
    nlinarith [mul_nonneg hd (sub_nonneg.2 hc')]
  refine le_of_mul_le_mul_right ?_ (by linarith : 0 < p + 1)
  calc x * y * p * (p + 1) = (x * p) * (y * (p + 1)) := by ring
    _ ≤ (x' * (p + c)) * (y' * (p + 1 + d)) :=
        mul_le_mul hxx hyy (by positivity) (by positivity)
    _ = x' * y' * ((p + c) * (p + 1 + d)) := by ring
    _ ≤ x' * y' * ((p + 1) * (p + (c + d))) :=
        mul_le_mul_of_nonneg_left hfactors (mul_nonneg hx' hy')
    _ = x' * y' * (p + (c + d)) * (p + 1) := by ring

theorem div_le_div_mul_one_add (hv : 0 < v) (hz : 0 < z) (hp : 0 < p)
    (h : u * z * p ≤ w * v * (p + c)) : u / v ≤ w / z * (1 + c / p) := by
  rw [div_le_iff₀ hv]
  calc u = u * z * p / (z * p) := by
        rw [mul_assoc, mul_div_cancel_right₀ _ (mul_pos hz hp).ne']
    _ ≤ w * v * (p + c) / (z * p) := div_le_div_of_nonneg_right h (mul_pos hz hp).le
    _ = w / z * (1 + c / p) * v := by
        field_simp

end Errors

/-! ## Rounded natural numbers -/

section Rounded

open BinaryFormat

variable {n : Nat}

theorem nearestMagnitude_lt_infinityWord (hn : n < 2 ^ 64) :
    double.nearestMagnitude n 1 < double.infinityWord := by
  rcases Nat.eq_zero_or_pos n with rfl | hpos
  · rw [nearestMagnitude_zero]
    decide
  · obtain ⟨m, s, hnormal, hword, -⟩ := exists_normal_nearest hpos Nat.one_pos
      (scaleOf_double_bounds (by omega : n < 2 ^ 200) (by decide))
    rw [hword]
    exact hnormal.magnitude_lt

theorem nearestMagnitude_eq_roundedMagnitude (hpos : 0 < n) (hn : n < 2 ^ 64) :
    double.nearestMagnitude n 1 = double.roundedMagnitude n 1 := by
  have hlt := nearestMagnitude_lt_infinityWord hn
  rw [nearestMagnitude_eq hpos] at hlt ⊢
  omega

/-- The scale of a positive natural number is not the smallest one. -/
theorem minScale_lt_scaleOf_one (hpos : 0 < n) : double.minScale < double.scaleOf n 1 := by
  have horder := lt_two_zpow_binaryOrder n Nat.one_pos
  rw [Nat.cast_one, div_one] at horder
  have hless := (Nat.one_le_cast.2 hpos).trans_lt horder
  rw [one_lt_zpow_iff_right₀ one_lt_two] at hless
  have hmin : double.minScale = -1074 := rfl
  have hbits : double.fractionBits = 52 := rfl
  rw [scaleOf, hmin, hbits]
  omega

/-- A natural number that does not exceed the significands is kept. -/
theorem valueAt_roundedMagnitude_of_le (hpos : 0 < n) (h : n ≤ 2 ^ 53) :
    double.valueAt (double.roundedMagnitude n 1) = n := by
  obtain ⟨m, s, hnormal, -, hvalue, -⟩ := exists_significant hpos (by omega)
  rw [significant_eq h, ← hnormal.valueAt] at hvalue
  have hnear := abs_valueAt_roundedMagnitude_sub_le (f := double) hpos Nat.one_pos
    (m + (s - double.minScale).toNat * 2 ^ double.fractionBits)
  rwa [Nat.cast_one, div_one, hvalue, sub_self, abs_zero, abs_nonpos_iff, sub_eq_zero] at hnear

/-- A natural number and what it is rounded to are bounded by each other. -/
theorem valueAt_nearestMagnitude_bounds (hn : n < 2 ^ 64) :
    double.valueAt (double.nearestMagnitude n 1) * (2 ^ 53 + 1) ≤ n * (2 ^ 53 + 1 + roundings n) ∧
      n * 2 ^ 53 ≤ double.valueAt (double.nearestMagnitude n 1) * (2 ^ 53 + roundings n) := by
  rcases Nat.eq_zero_or_pos n with rfl | hpos
  · rw [nearestMagnitude_zero, valueAt_zero]
    simp
  rw [nearestMagnitude_eq_roundedMagnitude hpos hn, roundings]
  split
  · have herror := abs_valueAt_roundedMagnitude_sub_mul_le hpos Nat.one_pos
      (minScale_lt_scaleOf_one hpos)
    have hbits : double.fractionBits + 1 = 53 := rfl
    rw [Nat.cast_one, div_one, hbits, ← abs_of_pos (by positivity : (0 : ℚ) < 2 ^ 53 + 1),
      ← abs_mul, abs_le, sub_mul] at herror
    push_cast
    constructor <;> linarith
  · rename_i hexact
    rw [valueAt_roundedMagnitude_of_le hpos (not_lt.1 hexact)]
    simp

/-- A rounded natural number is positive if the number is. -/
theorem valueAt_nearestMagnitude_pos (hpos : 0 < n) (hn : n < 2 ^ 64) :
    0 < double.valueAt (double.nearestMagnitude n 1) := by
  have hbelow := (valueAt_nearestMagnitude_bounds hn).2
  have hcast : (0 : ℚ) < n := Nat.cast_pos.2 hpos
  have hrounded : (0 : ℚ) ≤ roundings n := Nat.cast_nonneg _
  by_contra hzero
  rw [le_antisymm (not_lt.1 hzero) (valueAt_nonneg _), zero_mul] at hbelow
  linarith

/-- What an integer is rounded to denotes its number. -/
theorem exists_datum_doubleOfInt {n : Int} (hn : n.natAbs < 2 ^ 64) :
    ∃ significand scale,
      (doubleOfInt n).datum = .finite (decide (n < 0)) significand scale ∧
        (significand : ℚ) * 2 ^ scale = double.valueAt (double.nearestMagnitude n.natAbs 1) := by
  obtain ⟨significand, scale, hdenote, hvalue, -⟩ := denote_of_lt (decide (n < 0))
    roomy_double.exponents (nearestMagnitude_lt_infinityWord hn)
  refine ⟨significand, scale, ?_, hvalue⟩
  rw [Number.datum, Number.word_ofInt roomy_double, encodeInt, nearest, hdenote]

/-- What a positive number is rounded to denotes a positive number. -/
theorem exists_datum_natCast (hpos : 0 < n) (hn : n < 2 ^ 64) :
    ∃ significand scale, 0 < significand ∧
      (doubleOfInt n).datum = .finite false significand scale ∧
        (significand : ℚ) * 2 ^ scale = double.valueAt (double.nearestMagnitude n 1) := by
  obtain ⟨significand, scale, hdenote, hvalue⟩ := exists_datum_doubleOfInt (n := n)
    (by rwa [Int.natAbs_natCast])
  rw [Int.natAbs_natCast] at hvalue
  rw [decide_eq_false (by omega)] at hdenote
  have hrounded := valueAt_nearestMagnitude_pos hpos hn
  rw [← hvalue] at hrounded
  exact ⟨significand, scale, Nat.cast_pos.1 (pos_of_mul_pos_left hrounded (zpow_pos two_pos _).le),
    hdenote, hvalue⟩

theorem isPositive_doubleOfInt (hpos : 0 < n) (hn : n < 2 ^ 64) :
    (doubleOfInt n).datum.isPositive = true := by
  obtain ⟨significand, scale, hsignificand, hdenote, -⟩ := exists_datum_natCast hpos hn
  rw [hdenote]
  simp [Datum.isPositive, hsignificand.ne']

end Rounded

/-! ## Quotients of rounded numbers -/

section Means

open BinaryFormat

variable {s n a num den : Nat} (hs : s < 2 ^ 64) (hn : n < 2 ^ 64) (hpos : 0 < n) (hden : 0 < den)
  (hvalue : (num : ℚ) / den = double.valueAt (double.nearestMagnitude s 1)
    / double.valueAt (double.nearestMagnitude n 1))
include hs hn hpos hvalue

/-- The quotient of the rounded numbers is not much smaller than the exact one. -/
theorem div_le_rounded_mul :
    (s : ℚ) / n ≤ num / den * (1 + (roundings s + roundings n : Nat) / 2 ^ 53) := by
  have hn' := valueAt_nearestMagnitude_pos hpos hn
  obtain ⟨-, hsum⟩ := valueAt_nearestMagnitude_bounds hs
  obtain ⟨hcount, -⟩ := valueAt_nearestMagnitude_bounds hn
  rw [hvalue, Nat.cast_add]
  apply div_le_div_mul_one_add (Nat.cast_pos.2 hpos) hn' (by positivity)
  exact mul_mul_le_of_errors hn'.le (valueAt_nonneg _) (Nat.cast_nonneg _) (by positivity)
    (Nat.cast_nonneg _) (Nat.cast_le_one.2 (roundings_le_one s)) (Nat.cast_nonneg _) hsum hcount

/-- The quotient of the rounded numbers is not much larger than the exact one. -/
theorem rounded_le_div_mul :
    (num : ℚ) / den ≤ s / n * (1 + (roundings s + roundings n : Nat) / 2 ^ 53) := by
  have hn' := valueAt_nearestMagnitude_pos hpos hn
  obtain ⟨hsum, -⟩ := valueAt_nearestMagnitude_bounds hs
  obtain ⟨-, hcount⟩ := valueAt_nearestMagnitude_bounds hn
  rw [hvalue, Nat.add_comm, Nat.cast_add]
  apply div_le_div_mul_one_add hn' (Nat.cast_pos.2 hpos) (by positivity)
  rw [mul_comm _ (n : ℚ), mul_comm (s : ℚ)]
  exact mul_mul_le_of_errors (valueAt_nonneg _) hn'.le (Nat.cast_nonneg _) (by positivity)
    (Nat.cast_nonneg _) (Nat.cast_le_one.2 (roundings_le_one n)) (Nat.cast_nonneg _) hcount hsum

include hden

/-- A natural number that is not above the mean is not rounded far above it. -/
theorem nearestMagnitude_le_mean (h : n * a ≤ s) : double.nearestMagnitude a 1
    ≤ double.nearestMagnitude num den + (roundings s + roundings n) := by
  have hmean : (a : ℚ) ≤ s / n := by
    rw [le_div_iff₀ (Nat.cast_pos.2 hpos), mul_comm]
    exact_mod_cast h
  apply nearestMagnitude_le_add _ Nat.one_pos hden
  rw [Nat.cast_one, div_one]
  exact hmean.trans (div_le_rounded_mul hs hn hpos hvalue)

/-- A natural number that is not below the mean is not rounded far below it. -/
theorem mean_le_nearestMagnitude (h : s ≤ n * a) : double.nearestMagnitude num den
    ≤ double.nearestMagnitude a 1 + (roundings s + roundings n) := by
  have hmean : (s : ℚ) / n ≤ a := by
    rw [div_le_iff₀ (Nat.cast_pos.2 hpos), mul_comm]
    exact_mod_cast h
  apply nearestMagnitude_le_add _ hden Nat.one_pos
  rw [Nat.cast_one, div_one]
  exact (rounded_le_div_mul hs hn hpos hvalue).trans
    (mul_le_mul_of_nonneg_right hmean (by positivity))

end Means

/-! ## Double precision -/

section Double

open BinaryFormat

variable {sum a : Int} {count : Nat} (hsum : sum.natAbs < 2 ^ 64) (hcount : count < 2 ^ 64)
  (hpos : 0 < count)
include hsum hcount hpos

/-- The quotient of a rounded sum and a rounded count is rounded to nearest. -/
theorem exists_key_mean : ∃ num den : Nat, 0 < den ∧
    (num : ℚ) / den = double.valueAt (double.nearestMagnitude sum.natAbs 1)
      / double.valueAt (double.nearestMagnitude count 1) ∧
    (doubleOfInt sum / doubleOfInt count).key
      = if sum < 0 then -1 - (double.nearestMagnitude num den : Int)
        else double.nearestMagnitude num den := by
  obtain ⟨m, s, hdenote, hvalue⟩ := exists_datum_doubleOfInt hsum
  obtain ⟨n, t, hn, hdenote', hvalue'⟩ := exists_datum_natCast hpos hcount
  obtain ⟨q, hq⟩ : ∃ q : ℚ, q = m * 2 ^ s / (n * 2 ^ t) := ⟨_, rfl⟩
  have hnonneg : 0 ≤ q := by
    rw [hq]
    positivity
  have hratio : (q.num.natAbs : ℚ) / q.den = q := by
    rw [Nat.cast_natAbs, abs_of_nonneg (Rat.num_nonneg.2 hnonneg), Rat.num_div_den]
  refine ⟨q.num.natAbs, q.den, q.den_pos, ?_, ?_⟩
  · rw [hratio, hq, hvalue, hvalue']
  · rw [Number.key, Double.word_div hdenote hdenote' hn q.den_pos (hratio.trans hq), Bool.xor_false,
      nearest, orderKey_signWord_add ((nearestMagnitude_le _ _ _).trans_lt (infinityWord_lt _))]
    simp only [decide_eq_true_eq]

omit hsum hcount hpos in
theorem key_doubleOfInt (n : Int) : (doubleOfInt n).key
    = if n < 0 then -1 - (double.nearestMagnitude n.natAbs 1 : Int)
      else double.nearestMagnitude n.natAbs 1 := by
  rw [Number.key, Number.word_ofInt roomy_double, orderKey_encodeInt]

/-- An integer that is not above the exact mean is not far above the mean after rounding. -/
theorem key_le_mean (h : count * a ≤ sum) : (doubleOfInt a).key
    ≤ (doubleOfInt sum / doubleOfInt count).key
      + (roundings sum.natAbs + roundings count : Nat) := by
  obtain ⟨num, den, hden, hvalue, hkey⟩ := exists_key_mean hsum hcount hpos
  rw [hkey, key_doubleOfInt]
  split
  · split
    · -- both are negative, and the magnitudes are in the other order
      have hmagnitude : sum.natAbs ≤ count * a.natAbs := by
        zify
        rw [abs_of_neg (by assumption), abs_of_neg (by assumption)]
        linarith
      have hbound := mean_le_nearestMagnitude hsum hcount hpos hden hvalue hmagnitude
      omega
    · omega
  · rename_i ha
    have hproduct : 0 ≤ count * a := Int.mul_nonneg (Int.natCast_nonneg _) (not_lt.1 ha)
    have hmagnitude : count * a.natAbs ≤ sum.natAbs := by
      zify
      rw [abs_of_nonneg (not_lt.1 ha), abs_of_nonneg (hproduct.trans h)]
      exact h
    have hbound := nearestMagnitude_le_mean hsum hcount hpos hden hvalue hmagnitude
    rw [if_neg (not_lt.2 (hproduct.trans h))]
    exact_mod_cast hbound

/-- An integer that is not below the exact mean is not far below the mean after rounding. -/
theorem mean_le_key (h : sum ≤ count * a) :
    (doubleOfInt sum / doubleOfInt count).key
      ≤ (doubleOfInt a).key + (roundings sum.natAbs + roundings count : Nat) := by
  obtain ⟨num, den, hden, hvalue, hkey⟩ := exists_key_mean hsum hcount hpos
  rw [hkey, key_doubleOfInt]
  split
  · split
    · have hmagnitude : count * a.natAbs ≤ sum.natAbs := by
        zify
        rw [abs_of_neg (by assumption), abs_of_neg (by assumption)]
        linarith
      have hbound := nearestMagnitude_le_mean hsum hcount hpos hden hvalue hmagnitude
      omega
    · omega
  · rename_i hsign
    have ha : 0 ≤ a := by
      by_contra hneg
      have hproduct := Int.mul_neg_of_pos_of_neg (Int.natCast_pos.2 hpos) (not_le.1 hneg)
      omega
    have hmagnitude : sum.natAbs ≤ count * a.natAbs := by
      zify
      rw [abs_of_nonneg ha, abs_of_nonneg (not_lt.1 hsign)]
      exact h
    have hbound := mean_le_nearestMagnitude hsum hcount hpos hden hvalue hmagnitude
    rw [if_neg (not_lt.2 ha)]
    exact_mod_cast hbound

end Double

end StreamQuery.Numeric
