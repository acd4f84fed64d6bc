import Mathlib
import StreamQuery.Proofs.Numeric.Magnitudes
import StreamQuery.Proofs.Numeric.Rounding
set_option autoImplicit false

/-!
# What rounding to nearest means

The magnitude that a quotient is rounded to is nearest to it among all magnitudes
(`BinaryFormat.abs_valueAt_roundedMagnitude_sub_le`).  All else follows: rounding never passes a
number of the format, the error is small beside the quotient, and quotients that are close are
rounded to magnitudes that are close (`BinaryFormat.nearestMagnitude_le_add`).
-/

namespace StreamQuery.Numeric

variable {num den num' den' : Nat}

/-! ## Rounding a quotient -/

/-- A quotient is moved by at most one half. -/
theorem abs_roundHalfEven_sub_le_half (num : Nat) (hden : 0 < den) :
    |(roundHalfEven num den : ℚ) - num / den| ≤ 1 / 2 := by
  have hdiv := Nat.div_add_mod num den
  have hmod := Nat.mod_lt num hden
  have hpos : (0 : ℚ) < den := Nat.cast_pos.2 hden
  -- twice the distance, in units of the denominator
  have hbounds : 2 * (roundHalfEven num den * den) ≤ 2 * num + den ∧
      2 * num ≤ 2 * (roundHalfEven num den * den) + den := by
    rw [Nat.mul_comm den] at hdiv
    simp only [roundHalfEven]
    split
    · omega
    · split
      · rw [Nat.add_mul]
        omega
      · rcases Nat.mod_two_eq_zero_or_one (num / den) with heven | hodd
        · rw [heven, Nat.add_zero]
          omega
        · rw [hodd, Nat.add_mul]
          omega
  have hscaled : |(roundHalfEven num den : ℚ) * den - num| ≤ 1 / 2 * den := by
    rw [abs_le]
    have habove : 2 * ((roundHalfEven num den : ℚ) * den) ≤ 2 * num + den := by
      exact_mod_cast hbounds.1
    have hbelow : 2 * (num : ℚ) ≤ 2 * (roundHalfEven num den * den) + den := by
      exact_mod_cast hbounds.2
    constructor <;> linarith
  calc |(roundHalfEven num den : ℚ) - num / den|
      = |(roundHalfEven num den : ℚ) * den - num| / den := by
        rw [← abs_of_pos hpos, ← abs_div, abs_of_pos hpos, sub_div,
          mul_div_cancel_right₀ _ hpos.ne']
    _ ≤ 1 / 2 := (div_le_iff₀ hpos).2 hscaled

/-- No natural number is nearer to a quotient than the one that it is rounded to. -/
theorem abs_roundHalfEven_sub_le (num : Nat) (hden : 0 < den) (k : Nat) :
    |(roundHalfEven num den : ℚ) - num / den| ≤ |(k : ℚ) - num / den| := by
  by_cases hk : k = roundHalfEven num den
  · rw [hk]
  · have hapart : (1 : ℚ) ≤ |(k : ℚ) - roundHalfEven num den| := by
      have hne : (k : Int) - roundHalfEven num den ≠ 0 := by omega
      exact_mod_cast Int.one_le_abs hne
    have hhalf := abs_roundHalfEven_sub_le_half num hden
    have htriangle := abs_sub_le (k : ℚ) (num / den) (roundHalfEven num den)
    rw [abs_sub_comm (_ / _)] at htriangle
    linarith

theorem roundHalfEven_mul_mul {k : Nat} (num den : Nat) (hk : 0 < k) :
    roundHalfEven (num * k) (den * k) = roundHalfEven num den := by
  have hdouble : 2 * (num % den * k) = 2 * (num % den) * k := (Nat.mul_assoc _ _ _).symm
  simp only [roundHalfEven, Nat.mul_div_mul_right _ _ hk, Nat.mul_mod_mul_right, hdouble,
    Nat.mul_lt_mul_right hk]

/-- How a quotient is rounded does not depend on how it is written. -/
theorem roundHalfEven_congr (hden : 0 < den) (hden' : 0 < den') (h : num * den' = num' * den) :
    roundHalfEven num den = roundHalfEven num' den' := by
  rw [← roundHalfEven_mul_mul num den hden', h, Nat.mul_comm den, roundHalfEven_mul_mul _ _ hden]

/-- The order of magnitude of a quotient is known by its bounds. -/
theorem binaryOrder_eq {k : Int} (hnum : 0 < num) (hden : 0 < den)
    (hle : (2 : ℚ) ^ k ≤ num / den) (hlt : (num : ℚ) / den < 2 ^ (k + 1)) :
    binaryOrder num den = k := by
  have hbelow := (two_zpow_binaryOrder_le hnum hden).trans_lt hlt
  have habove := hle.trans_lt (lt_two_zpow_binaryOrder num hden)
  rw [zpow_lt_zpow_iff_right₀ one_lt_two] at hbelow habove
  omega

namespace BinaryFormat

variable {f : BinaryFormat} {w k : Nat}

/-! ## The nearest magnitude -/

/-- The magnitude nearest to a quotient, if there were no largest exponent. -/
def roundedMagnitude (f : BinaryFormat) (num den : Nat) : Nat :=
  f.significandOf num den + (f.scaleOf num den - f.minScale).toNat * 2 ^ f.fractionBits

theorem nearestMagnitude_eq (hnum : 0 < num) :
    f.nearestMagnitude num den = min (f.roundedMagnitude num den) f.infinityWord :=
  nearestMagnitude_eq_min hnum

theorem minScale_le_scaleOf (f : BinaryFormat) (num den : Nat) : f.minScale ≤ f.scaleOf num den :=
  le_max_right _ _

section Quotients

variable (hnum : 0 < num) (hden : 0 < den)
include hnum hden

/-- The rounded magnitude has the number of the rounded significand. -/
theorem valueAt_roundedMagnitude : f.valueAt (f.roundedMagnitude num den)
    = f.significandOf num den * 2 ^ f.scaleOf num den := by
  have hmin := f.minScale_le_scaleOf num den
  have hscale : f.minScale + ((f.scaleOf num den - f.minScale).toNat : Int)
      = f.scaleOf num den := by omega
  rw [roundedMagnitude, valueAt_add (significandOf_le num hden) fun hbinade =>
    le_significandOf hnum hden (by omega), hscale]

omit hnum hden in
/-- In units of its scale, a quotient is as far from the rounded significand as it is from the
rounded magnitude. -/
theorem abs_mul_scale_sub (m : ℚ) : |m * 2 ^ f.scaleOf num den - num / den|
    = |m - (num * 2 ^ (-f.scaleOf num den).toNat : Nat)
        / (den * 2 ^ (f.scaleOf num den).toNat : Nat)| * 2 ^ f.scaleOf num den := by
  have hpos : (0 : ℚ) < 2 ^ f.scaleOf num den := zpow_pos two_pos _
  rw [scaled_quotient]
  conv_rhs => rw [← abs_of_pos hpos, ← abs_mul, abs_of_pos hpos, sub_mul,
    div_mul_cancel₀ _ hpos.ne']

/-- The rounded magnitude is half a unit of its scale away from the quotient at most. -/
theorem abs_valueAt_roundedMagnitude_sub_le_half :
    |f.valueAt (f.roundedMagnitude num den) - num / den| ≤ 1 / 2 * 2 ^ f.scaleOf num den := by
  have hunit : 0 < den * 2 ^ (f.scaleOf num den).toNat := Nat.mul_pos hden (Nat.two_pow_pos _)
  rw [valueAt_roundedMagnitude hnum hden, abs_mul_scale_sub]
  exact mul_le_mul_of_nonneg_right (abs_roundHalfEven_sub_le_half _ hunit)
    (zpow_pos two_pos _).le

/-- The rounded magnitude is as near to the quotient as any multiple of the unit of its scale. -/
theorem abs_valueAt_roundedMagnitude_sub_le_of_mul (n : Nat)
    (h : f.valueAt w = n * 2 ^ f.scaleOf num den) :
    |f.valueAt (f.roundedMagnitude num den) - num / den| ≤ |f.valueAt w - num / den| := by
  have hunit : 0 < den * 2 ^ (f.scaleOf num den).toNat := Nat.mul_pos hden (Nat.two_pow_pos _)
  rw [valueAt_roundedMagnitude hnum hden, h, abs_mul_scale_sub, abs_mul_scale_sub]
  exact mul_le_mul_of_nonneg_right (abs_roundHalfEven_sub_le _ hunit n) (zpow_pos two_pos _).le

/-- Above the smallest scale a quotient reaches the first magnitude of its binade. -/
theorem exists_first_le (hscale : f.minScale < f.scaleOf num den) :
    f.valueAt (2 ^ f.fractionBits + (f.scaleOf num den - f.minScale).toNat * 2 ^ f.fractionBits)
        = (2 ^ f.fractionBits : Nat) * 2 ^ f.scaleOf num den ∧
      (2 ^ f.fractionBits : Nat) * (2 : ℚ) ^ f.scaleOf num den ≤ num / den := by
  have hpower : f.minScale + ((f.scaleOf num den - f.minScale).toNat : Int)
      = f.scaleOf num den := by omega
  have horder : (f.fractionBits : Int) + f.scaleOf num den = binaryOrder num den := by
    unfold scaleOf at hscale ⊢
    omega
  constructor
  · rw [valueAt_add (Nat.pow_le_pow_right (by decide) (Nat.le_succ _)) fun _ => le_rfl, hpower]
  · rw [Nat.cast_pow, Nat.cast_ofNat, ← zpow_natCast, ← zpow_add₀ two_ne_zero, horder]
    exact two_zpow_binaryOrder_le hnum hden

/-- No magnitude is nearer to a quotient than the one that it is rounded to. -/
theorem abs_valueAt_roundedMagnitude_sub_le (w : Nat) :
    |f.valueAt (f.roundedMagnitude num den) - num / den| ≤ |f.valueAt w - num / den| := by
  by_cases hbinade : f.minScale < f.scaleOf num den →
      2 ^ f.fractionBits + (f.scaleOf num den - f.minScale).toNat * 2 ^ f.fractionBits ≤ w
  · obtain ⟨n, hn⟩ := exists_valueAt_eq_mul (f.minScale_le_scaleOf num den) hbinade
    exact abs_valueAt_roundedMagnitude_sub_le_of_mul hnum hden n hn
  · -- below its binade, no magnitude is nearer than the first one of the binade
    push Not at hbinade
    obtain ⟨hfirst, hle⟩ := exists_first_le hnum hden hbinade.1
    have hbelow := f.valueAt_strictMono hbinade.2
    refine (abs_valueAt_roundedMagnitude_sub_le_of_mul hnum hden _ hfirst).trans ?_
    rw [abs_of_nonpos (by linarith), abs_of_nonpos (by linarith)]
    linarith

/-! ## Rounding and the numbers of the format -/

/-- What is not below the number of a magnitude is not rounded below it. -/
theorem le_roundedMagnitude (h : f.valueAt w ≤ num / den) : w ≤ f.roundedMagnitude num den := by
  by_contra hlt
  have hnear := abs_valueAt_roundedMagnitude_sub_le (f := f) hnum hden w
  have hbelow := f.valueAt_strictMono (Nat.not_le.1 hlt)
  rw [abs_of_nonpos (by linarith), abs_of_nonpos (by linarith)] at hnear
  linarith

/-- What is not above the number of a magnitude is not rounded above it. -/
theorem roundedMagnitude_le (h : num / den ≤ f.valueAt w) : f.roundedMagnitude num den ≤ w := by
  by_contra hlt
  have hnear := abs_valueAt_roundedMagnitude_sub_le (f := f) hnum hden w
  have habove := f.valueAt_strictMono (Nat.not_le.1 hlt)
  rw [abs_of_nonneg (by linarith), abs_of_nonneg (by linarith)] at hnear
  linarith

/-- What is below the middle of two neighbours is not rounded to the upper one. -/
theorem roundedMagnitude_le_of_lt (h : num / den < f.valueAt w + f.unitAt w / 2) :
    f.roundedMagnitude num den ≤ w := by
  rcases le_total ((num : ℚ) / den) (f.valueAt w) with hle | hge
  · exact roundedMagnitude_le hnum hden hle
  · by_contra hlt
    have hnear := abs_valueAt_roundedMagnitude_sub_le (f := f) hnum hden w
    have hnext := f.valueAt_strictMono.monotone (Nat.succ_le_of_lt (Nat.not_le.1 hlt))
    have hunit := f.unitAt_pos w
    rw [Nat.succ_eq_add_one, valueAt_succ] at hnext
    rw [abs_of_nonneg (by linarith), abs_of_nonpos (by linarith)] at hnear
    linarith

/-- A quotient is not above the middle of its magnitude and the next one. -/
theorem le_of_roundedMagnitude :
    (num : ℚ) / den ≤ f.valueAt (f.roundedMagnitude num den)
      + f.unitAt (f.roundedMagnitude num den) / 2 := by
  by_contra hlt
  rw [not_le] at hlt
  have hunit := f.unitAt_pos (f.roundedMagnitude num den)
  have hnear := abs_valueAt_roundedMagnitude_sub_le (f := f) hnum hden
    (f.roundedMagnitude num den + 1)
  have habove : (num : ℚ) / den < f.valueAt (f.roundedMagnitude num den + 1) := by
    by_contra hge
    exact Nat.not_succ_le_self _ (le_roundedMagnitude hnum hden (not_lt.1 hge))
  rw [valueAt_succ] at hnear habove
  rw [abs_of_nonpos (by linarith), abs_of_nonneg (by linarith)] at hnear
  linarith

/-- Above the smallest scale the error is small beside the quotient. -/
theorem abs_valueAt_roundedMagnitude_sub_mul_le
    (hscale : f.minScale < f.scaleOf num den) :
    |f.valueAt (f.roundedMagnitude num den) - num / den| * (2 ^ (f.fractionBits + 1) + 1)
      ≤ num / den := by
  obtain ⟨hfirst, hle⟩ := exists_first_le hnum hden hscale
  have hhalf := abs_valueAt_roundedMagnitude_sub_le_half (f := f) hnum hden
  have hnear := abs_valueAt_roundedMagnitude_sub_le_of_mul hnum hden _ hfirst
  rw [hfirst, abs_of_nonpos (sub_nonpos.2 hle)] at hnear
  have hscaled : |f.valueAt (f.roundedMagnitude num den) - num / den| * 2 ^ (f.fractionBits + 1)
      ≤ (2 ^ f.fractionBits : Nat) * 2 ^ f.scaleOf num den := by
    calc |f.valueAt (f.roundedMagnitude num den) - num / den| * 2 ^ (f.fractionBits + 1)
        ≤ 1 / 2 * 2 ^ f.scaleOf num den * 2 ^ (f.fractionBits + 1) :=
          mul_le_mul_of_nonneg_right hhalf (by positivity)
      _ = (2 ^ f.fractionBits : Nat) * 2 ^ f.scaleOf num den := by
          push_cast
          ring
  linarith

/-! ## Close quotients -/

omit hnum in
/-- How a quotient is rounded does not depend on how it is written. -/
theorem roundedMagnitude_congr (hnum : 0 < num) (hden' : 0 < den')
    (h : (num : ℚ) / den = num' / den') :
    f.roundedMagnitude num den = f.roundedMagnitude num' den' := by
  have hpos : (0 : ℚ) < num / den := div_pos (Nat.cast_pos.2 hnum) (Nat.cast_pos.2 hden)
  have hnum' : 0 < num' := by
    rw [h] at hpos
    exact Nat.cast_pos.1 ((div_pos_iff_of_pos_right (Nat.cast_pos.2 hden')).1 hpos)
  have horder : binaryOrder num den = binaryOrder num' den' :=
    binaryOrder_eq hnum hden (h ▸ two_zpow_binaryOrder_le hnum' hden')
      (h ▸ lt_two_zpow_binaryOrder num' hden')
  have hscale : f.scaleOf num den = f.scaleOf num' den' := by rw [scaleOf, scaleOf, horder]
  have hcross : num * den' = num' * den := by
    rw [div_eq_div_iff (Nat.cast_ne_zero.2 hden.ne') (Nat.cast_ne_zero.2 hden'.ne')] at h
    exact_mod_cast h
  have hsignificand : f.significandOf num den = f.significandOf num' den' := by
    rw [significandOf, significandOf, hscale]
    apply roundHalfEven_congr (Nat.mul_pos hden (Nat.two_pow_pos _))
      (Nat.mul_pos hden' (Nat.two_pow_pos _))
    rw [Nat.mul_mul_mul_comm, hcross, Nat.mul_mul_mul_comm]
  rw [roundedMagnitude, roundedMagnitude, hscale, hsignificand]

/-- A quotient that is larger by some units of the last place at most is rounded to as many
magnitudes more at most. -/
theorem roundedMagnitude_le_add (k : Nat) (hnum' : 0 < num') (hden' : 0 < den')
    (h : (num : ℚ) / den ≤ num' / den' * (1 + k / 2 ^ (f.fractionBits + 1))) :
    f.roundedMagnitude num den ≤ f.roundedMagnitude num' den' + k := by
  have hmiddle := le_of_roundedMagnitude (f := f) hnum' hden'
  generalize hw : f.roundedMagnitude num' den' = w at *
  have hunit := f.unitAt_pos w
  rcases Nat.eq_zero_or_pos k with rfl | hk
  · rw [Nat.cast_zero, zero_div, add_zero, mul_one] at h
    rcases h.lt_or_eq with hlt | heq
    · exact roundedMagnitude_le_of_lt hnum hden (hlt.trans_le hmiddle)
    · rw [roundedMagnitude_congr hden hnum hden' heq, hw]
      exact le_rfl
  · apply roundedMagnitude_le_of_lt hnum hden
    have hmore := f.valueAt_add_le w k
    have hapart := f.unitAt_mono (Nat.le_add_right w k)
    have hvalue := f.valueAt_le w
    have hkpos : (0 : ℚ) < k := Nat.cast_pos.2 hk
    generalize hpower : (2 : ℚ) ^ (f.fractionBits + 1) = power at *
    have hppos : 0 < power := hpower ▸ by positivity
    -- the numbers of a binade have less than `power` units
    have hstep : (f.valueAt w + f.unitAt w / 2) * (k / power) < k * f.unitAt w := by
      rw [mul_div_assoc', div_lt_iff₀ hppos]
      nlinarith
    calc (num : ℚ) / den ≤ num' / den' * (1 + k / power) := h
      _ ≤ (f.valueAt w + f.unitAt w / 2) * (1 + k / power) :=
          mul_le_mul_of_nonneg_right hmiddle (by positivity)
      _ = f.valueAt w + f.unitAt w / 2 + (f.valueAt w + f.unitAt w / 2) * (k / power) := by ring
      _ < f.valueAt (w + k) + f.unitAt (w + k) / 2 := by linarith

end Quotients

/-- What is not below a number of the format is not rounded below it. -/
theorem le_nearestMagnitude (hden : 0 < den) (hw : w ≤ f.infinityWord)
    (h : f.valueAt w ≤ num / den) : w ≤ f.nearestMagnitude num den := by
  rcases Nat.eq_zero_or_pos num with rfl | hnum
  · rw [Nat.cast_zero, zero_div, ← f.valueAt_zero, f.valueAt_strictMono.le_iff_le] at h
    rw [Nat.le_zero.1 h]
    exact Nat.zero_le _
  · rw [nearestMagnitude_eq hnum]
    exact le_min (le_roundedMagnitude hnum hden h) hw

/-- What is not above a number of the format is not rounded above it. -/
theorem nearestMagnitude_le_of_le (hden : 0 < den) (h : num / den ≤ f.valueAt w) :
    f.nearestMagnitude num den ≤ w := by
  rcases Nat.eq_zero_or_pos num with rfl | hnum
  · rw [f.nearestMagnitude_zero]
    exact Nat.zero_le w
  · rw [nearestMagnitude_eq hnum]
    exact (Nat.min_le_left _ _).trans (roundedMagnitude_le hnum hden h)

theorem min_le_min_add {i j k l : Nat} (h : i ≤ j + k) : min i l ≤ min j l + k := by omega

/-- A quotient that is larger by some units of the last place at most is rounded to as many words
more at most. -/
theorem nearestMagnitude_le_add (k : Nat) (hden : 0 < den) (hden' : 0 < den')
    (h : (num : ℚ) / den ≤ num' / den' * (1 + k / 2 ^ (f.fractionBits + 1))) :
    f.nearestMagnitude num den ≤ f.nearestMagnitude num' den' + k := by
  rcases Nat.eq_zero_or_pos num with rfl | hnum
  · rw [f.nearestMagnitude_zero]
    exact Nat.zero_le _
  have hquotient : (0 : ℚ) < num / den := div_pos (Nat.cast_pos.2 hnum) (Nat.cast_pos.2 hden)
  have hnum' : 0 < num' := by
    by_contra hzero
    rw [Nat.eq_zero_of_not_pos hzero, Nat.cast_zero, zero_div, zero_mul] at h
    exact hquotient.not_ge h
  rw [nearestMagnitude_eq hnum, nearestMagnitude_eq hnum']
  exact min_le_min_add (roundedMagnitude_le_add hnum hden k hnum' hden' h)

end BinaryFormat

end StreamQuery.Numeric
