import Mathlib
import StreamQuery.Proofs.Numeric.Words
set_option autoImplicit false

/-!
# The numbers of magnitudes

A word without its sign stands for a number, and the next word for the next number of the format
(`BinaryFormat.valueAt_succ`).  So the words are in the order of the numbers, which are the farther
apart the larger they are.
-/

namespace StreamQuery.Numeric

namespace BinaryFormat

/-! ## Magnitudes -/

/-- The binade of a magnitude, counted from the smallest scale on. -/
def binade (f : BinaryFormat) (w : Nat) : Nat := w / 2 ^ f.fractionBits - 1

/-- The distance from the number of a magnitude to that of the next one. -/
def unitAt (f : BinaryFormat) (w : Nat) : ℚ := 2 ^ (f.minScale + f.binade w)

/-- The number of a magnitude.  The words from infinity on are counted as if there were no largest
exponent. -/
def valueAt (f : BinaryFormat) (w : Nat) : ℚ :=
  (w - f.binade w * 2 ^ f.fractionBits : Nat) * f.unitAt w

variable {f : BinaryFormat} {w w' significand k : Nat} {s : Int}

theorem unitAt_pos (w : Nat) : 0 < f.unitAt w := zpow_pos two_pos _

/-- The number of a significand in a binade; the significand may have been rounded up to the next
power of two. -/
theorem valueAt_add (hlt : significand ≤ 2 ^ (f.fractionBits + 1))
    (hfull : 0 < k → 2 ^ f.fractionBits ≤ significand) :
    f.valueAt (significand + k * 2 ^ f.fractionBits) = significand * 2 ^ (f.minScale + k) := by
  have hpos : 0 < 2 ^ f.fractionBits := Nat.two_pow_pos _
  rw [Nat.pow_succ] at hlt
  have hquotient : (significand + k * 2 ^ f.fractionBits) / 2 ^ f.fractionBits
      = significand / 2 ^ f.fractionBits + k := Nat.add_mul_div_right _ _ hpos
  rw [valueAt, unitAt, binade, hquotient]
  rcases Nat.lt_or_eq_of_le hlt with hsmall | rfl
  · have hbinade : significand / 2 ^ f.fractionBits + k - 1 = k := by
      rcases Nat.lt_or_ge significand (2 ^ f.fractionBits) with hless | hmore
      · rw [Nat.div_eq_of_lt hless]
        omega
      · have hone : significand / 2 ^ f.fractionBits = 1 :=
          Nat.div_eq_of_lt_le (by omega) (by omega)
        omega
    rw [hbinade, Nat.add_sub_cancel]
  · -- the carry is counted as the smallest significand of the next binade
    have hbinade : 2 ^ f.fractionBits * 2 / 2 ^ f.fractionBits + k - 1 = k + 1 := by
      rw [Nat.mul_div_cancel_left _ hpos]
      omega
    have hrest : 2 ^ f.fractionBits * 2 + k * 2 ^ f.fractionBits - (k + 1) * 2 ^ f.fractionBits
        = 2 ^ f.fractionBits := by
      rw [Nat.add_mul]
      omega
    rw [hbinade, hrest, Nat.cast_succ, ← add_assoc, zpow_add_one₀ two_ne_zero]
    push_cast
    ring

/-- A magnitude is a significand in its binade. -/
theorem significand_add_binade (w : Nat) :
    w - f.binade w * 2 ^ f.fractionBits + f.binade w * 2 ^ f.fractionBits = w := by
  refine Nat.sub_add_cancel ?_
  calc f.binade w * 2 ^ f.fractionBits
      ≤ w / 2 ^ f.fractionBits * 2 ^ f.fractionBits := Nat.mul_le_mul_right _ (Nat.sub_le _ _)
    _ ≤ w := Nat.div_mul_le_self _ _

/-- The significand of a magnitude has all its digits, unless the magnitude is in the first
binade. -/
theorem significand_bounds (w : Nat) :
    w - f.binade w * 2 ^ f.fractionBits < 2 ^ (f.fractionBits + 1) ∧
      (2 ^ f.fractionBits ≤ w → 2 ^ f.fractionBits ≤ w - f.binade w * 2 ^ f.fractionBits) := by
  have hpos : 0 < 2 ^ f.fractionBits := Nat.two_pow_pos _
  have hdiv := Nat.div_add_mod w (2 ^ f.fractionBits)
  have hmod := Nat.mod_lt w hpos
  rw [Nat.mul_comm] at hdiv
  rw [Nat.pow_succ, binade]
  rcases Nat.eq_zero_or_pos (w / 2 ^ f.fractionBits) with hzero | hlarge
  · rw [hzero] at hdiv ⊢
    omega
  · obtain ⟨e, he⟩ := Nat.exists_eq_succ_of_ne_zero hlarge.ne'
    rw [he, Nat.succ_mul] at hdiv
    rw [he, Nat.succ_sub_one]
    omega

/-- The next magnitude is the next number. -/
theorem valueAt_succ (w : Nat) : f.valueAt (w + 1) = f.valueAt w + f.unitAt w := by
  obtain ⟨hlt, hfull⟩ := f.significand_bounds w
  have hword : w + 1 = w - f.binade w * 2 ^ f.fractionBits + 1
      + f.binade w * 2 ^ f.fractionBits := by
    have := f.significand_add_binade w
    omega
  have hdigits : 0 < f.binade w → 2 ^ f.fractionBits ≤ w := by
    intro hbinade
    rw [binade] at hbinade
    by_contra hless
    rw [Nat.div_eq_of_lt (Nat.not_le.1 hless)] at hbinade
    omega
  have hnext : f.valueAt (w + 1) = ((w - f.binade w * 2 ^ f.fractionBits + 1 : Nat) : ℚ)
      * 2 ^ (f.minScale + f.binade w) := by
    conv_lhs => rw [hword]
    exact valueAt_add hlt fun hbinade => (hfull (hdigits hbinade)).trans (Nat.le_succ _)
  rw [hnext, valueAt, unitAt, Nat.cast_succ, add_mul, one_mul]

theorem valueAt_strictMono (f : BinaryFormat) : StrictMono f.valueAt :=
  strictMono_nat_of_lt_succ fun w => by
    rw [valueAt_succ]
    exact lt_add_of_pos_right _ (unitAt_pos w)

@[simp]
theorem valueAt_zero (f : BinaryFormat) : f.valueAt 0 = 0 := by
  rw [valueAt, Nat.zero_sub, Nat.cast_zero, zero_mul]

theorem valueAt_nonneg (w : Nat) : 0 ≤ f.valueAt w :=
  f.valueAt_zero ▸ f.valueAt_strictMono.monotone (Nat.zero_le w)

/-- Magnitudes of normal numbers. -/
theorem Normal.valueAt (h : f.Normal significand s) :
    f.valueAt (significand + (s - f.minScale).toNat * 2 ^ f.fractionBits)
      = significand * 2 ^ s := by
  have hmin := h.minScale_le
  have hscale : f.minScale + ((s - f.minScale).toNat : Int) = s := by omega
  rw [valueAt_add h.lt.le fun hbinade => h.full (by omega), hscale]

/-- From its first magnitude on, a binade and those above it have numbers that are multiples of its
unit. -/
theorem exists_valueAt_eq_mul (hs : f.minScale ≤ s)
    (h : f.minScale < s → 2 ^ f.fractionBits + (s - f.minScale).toNat * 2 ^ f.fractionBits ≤ w) :
    ∃ n : Nat, f.valueAt w = n * 2 ^ s := by
  have hbinade : s ≤ f.minScale + f.binade w := by
    rcases Int.lt_or_eq_of_le hs with hlarge | rfl
    · have hquotient : (s - f.minScale).toNat + 1 ≤ w / 2 ^ f.fractionBits := by
        rw [Nat.le_div_iff_mul_le (Nat.two_pow_pos _), Nat.add_mul, Nat.one_mul, Nat.add_comm]
        exact h hlarge
      rw [binade]
      omega
    · omega
  obtain ⟨j, hj⟩ := Int.eq_ofNat_of_zero_le (sub_nonneg.2 hbinade)
  refine ⟨(w - f.binade w * 2 ^ f.fractionBits) * 2 ^ j, ?_⟩
  have hscale : f.minScale + (f.binade w : Int) = j + s := by omega
  rw [BinaryFormat.valueAt, unitAt, hscale, zpow_add₀ two_ne_zero, zpow_natCast, Nat.cast_mul,
    Nat.cast_pow, Nat.cast_ofNat, mul_assoc]

/-- Numbers of higher magnitudes are no closer together. -/
theorem unitAt_mono (h : w ≤ w') : f.unitAt w ≤ f.unitAt w' := by
  have hquotient : w / 2 ^ f.fractionBits ≤ w' / 2 ^ f.fractionBits := Nat.div_le_div_right h
  refine zpow_le_zpow_right₀ one_le_two ?_
  rw [binade, binade]
  omega

/-- A number of the format has few units of its binade. -/
theorem valueAt_le (w : Nat) : f.valueAt w ≤ (2 ^ (f.fractionBits + 1) - 1) * f.unitAt w := by
  have hlt : w - f.binade w * 2 ^ f.fractionBits + 1 ≤ 2 ^ (f.fractionBits + 1) :=
    (f.significand_bounds w).1
  have hcast : ((w - f.binade w * 2 ^ f.fractionBits : Nat) : ℚ) + 1
      ≤ 2 ^ (f.fractionBits + 1) := by exact_mod_cast hlt
  exact mul_le_mul_of_nonneg_right (by linarith) (unitAt_pos w).le

/-- Some magnitudes on there are as many units more at least. -/
theorem valueAt_add_le (w k : Nat) : f.valueAt w + k * f.unitAt w ≤ f.valueAt (w + k) := by
  induction k with
  | zero => simp
  | succ k ih =>
    have hunit : f.unitAt w ≤ f.unitAt (w + k) := unitAt_mono (Nat.le_add_right w k)
    rw [← Nat.add_assoc, valueAt_succ]
    push_cast
    linarith

end BinaryFormat

end StreamQuery.Numeric
