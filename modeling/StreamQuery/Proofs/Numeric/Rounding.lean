import Mathlib
import StreamQuery.Proofs.Numeric.Exactness
set_option autoImplicit false

/-!
# Rounding to the nearest word

The word nearest to a quotient denotes the significand that the quotient is rounded to, at the scale
of the quotient, also where rounding carries into the next binade
(`BinaryFormat.exists_normal_nearest`).  So quotients of numbers that are not too long never come
out infinite, and whole numbers stay whole when they are rounded (`exists_significant`).
-/

namespace StreamQuery.Numeric

variable {num den n : Nat}

namespace BinaryFormat

variable (f : BinaryFormat)

/-! ## Scales and significands of quotients -/

/-- The scale of the numbers of a format next to a quotient. -/
def scaleOf (num den : Nat) : Int := max (binaryOrder num den - f.fractionBits) f.minScale

/-- The significand that a quotient is rounded to at its scale. -/
def significandOf (num den : Nat) : Nat :=
  roundHalfEven (num * 2 ^ (-f.scaleOf num den).toNat) (den * 2 ^ (f.scaleOf num den).toNat)

variable {f}

theorem nearestMagnitude_eq_min (hnum : 0 < num) :
    f.nearestMagnitude num den = min (f.significandOf num den
      + (f.scaleOf num den - f.minScale).toNat * 2 ^ f.fractionBits) f.infinityWord :=
  if_neg hnum.ne'

/-- A quotient in units of a power of two. -/
theorem scaled_quotient (num den : Nat) (s : Int) :
    ((num * 2 ^ (-s).toNat : Nat) : ℚ) / (den * 2 ^ s.toNat : Nat) = num / den / 2 ^ s := by
  rw [two_zpow_eq, div_div_eq_mul_div, div_mul_eq_mul_div, div_div]
  push_cast
  rfl

/-- The significand has at most one digit too many, and then it is a power of two. -/
theorem significandOf_le (num : Nat) (hden : 0 < den) :
    f.significandOf num den ≤ 2 ^ (f.fractionBits + 1) := by
  have hunit : 0 < den * 2 ^ (f.scaleOf num den).toNat := Nat.mul_pos hden (Nat.two_pow_pos _)
  have hbelow : (num : ℚ) / den / 2 ^ f.scaleOf num den < 2 ^ (f.fractionBits + 1) := by
    rw [div_lt_iff₀ (zpow_pos two_pos _)]
    have horder : binaryOrder num den - f.fractionBits ≤ f.scaleOf num den := le_max_left _ _
    calc (num : ℚ) / den < 2 ^ (binaryOrder num den + 1) := lt_two_zpow_binaryOrder num hden
      _ ≤ 2 ^ (((f.fractionBits + 1 : Nat) : Int) + f.scaleOf num den) :=
          zpow_le_zpow_right₀ one_le_two (by omega)
      _ = 2 ^ (f.fractionBits + 1) * 2 ^ f.scaleOf num den := by
          rw [zpow_add₀ two_ne_zero, zpow_natCast]
  rw [← scaled_quotient, div_lt_iff₀ (Nat.cast_pos.2 hunit)] at hbelow
  have hfloor : num * 2 ^ (-f.scaleOf num den).toNat / (den * 2 ^ (f.scaleOf num den).toNat)
      < 2 ^ (f.fractionBits + 1) := by
    rw [Nat.div_lt_iff_lt_mul hunit]
    exact_mod_cast hbelow
  exact (roundHalfEven_bounds _ _).2.trans hfloor

/-- The significand has all its digits unless the scale is the smallest one. -/
theorem le_significandOf (hnum : 0 < num) (hden : 0 < den)
    (hscale : f.minScale < f.scaleOf num den) : 2 ^ f.fractionBits ≤ f.significandOf num den := by
  have hunit : 0 < den * 2 ^ (f.scaleOf num den).toNat := Nat.mul_pos hden (Nat.two_pow_pos _)
  have horder : f.scaleOf num den = binaryOrder num den - f.fractionBits := by
    unfold scaleOf at hscale ⊢
    omega
  have habove : (2 : ℚ) ^ f.fractionBits ≤ num / den / 2 ^ f.scaleOf num den := by
    rw [le_div_iff₀ (zpow_pos two_pos _), ← zpow_natCast, ← zpow_add₀ two_ne_zero, horder,
      add_sub_cancel]
    exact two_zpow_binaryOrder_le hnum hden
  rw [← scaled_quotient, le_div_iff₀ (Nat.cast_pos.2 hunit)] at habove
  refine le_trans ?_ (roundHalfEven_bounds _ _).1
  rw [Nat.le_div_iff_mul_le hunit]
  exact_mod_cast habove

/-! ## Nearest words -/

/-- The magnitude nearest to a quotient is that of the rounded significand at the scale of the
quotient, as long as this is not too large. -/
theorem exists_normal_nearest (hnum : 0 < num) (hden : 0 < den)
    (hrange : (f.scaleOf num den - f.minScale).toNat + 3 < 2 ^ f.exponentBits) :
    ∃ n s, f.Normal n s ∧
      f.nearestMagnitude num den = n + (s - f.minScale).toNat * 2 ^ f.fractionBits ∧
      (n : ℚ) * 2 ^ s = f.significandOf num den * 2 ^ f.scaleOf num den := by
  have hmin : f.minScale ≤ f.scaleOf num den := le_max_right _ _
  rcases Nat.lt_or_ge (f.significandOf num den) (2 ^ (f.fractionBits + 1)) with hlt | hcarry
  · have hnormal : f.Normal (f.significandOf num den) (f.scaleOf num den) :=
      ⟨hlt, hmin, by omega, le_significandOf hnum hden⟩
    refine ⟨_, _, hnormal, ?_, rfl⟩
    rw [nearestMagnitude_eq_min hnum, Nat.min_eq_left hnormal.magnitude_lt.le]
  · -- the carry makes the significand the smallest one of the next scale
    have hpower : f.significandOf num den = 2 ^ f.fractionBits * 2 := by
      rw [← Nat.pow_succ]
      exact Nat.le_antisymm (significandOf_le num hden) hcarry
    have hnormal : f.Normal (2 ^ f.fractionBits) (f.scaleOf num den + 1) :=
      ⟨Nat.pow_lt_pow_succ (by decide), by omega, by omega, fun _ => le_rfl⟩
    have hword : f.significandOf num den
          + (f.scaleOf num den - f.minScale).toNat * 2 ^ f.fractionBits
        = 2 ^ f.fractionBits
          + (f.scaleOf num den + 1 - f.minScale).toNat * 2 ^ f.fractionBits := by
      have hscale : (f.scaleOf num den + 1 - f.minScale).toNat
          = (f.scaleOf num den - f.minScale).toNat + 1 := by omega
      rw [hpower, hscale]
      ring
    refine ⟨_, _, hnormal, ?_, ?_⟩
    · rw [nearestMagnitude_eq_min hnum, hword, Nat.min_eq_left hnormal.magnitude_lt.le]
    · rw [hpower, zpow_add_one₀ two_ne_zero]
      push_cast
      ring

end BinaryFormat

/-! ## Double precision -/

/-- In double precision the scale of a quotient of numbers of few bits is far from its ends. -/
theorem scaleOf_double_bounds (hnum : num < 2 ^ 200) (hden : den < 2 ^ 200) :
    (BinaryFormat.double.scaleOf num den - BinaryFormat.double.minScale).toNat + 3
      < 2 ^ BinaryFormat.double.exponentBits := by
  have hhi := (binaryOrder_bounds (by decide) hnum hden).2
  show (max (binaryOrder num den - 52) (-1074) - -1074).toNat + 3 < 2048
  omega

/-- A double precision number that is put together of a significand and a scale. -/
theorem datum_assemble {m : Nat} {s : Int} (h : BinaryFormat.double.Normal m s) :
    (doubleOfWord (BinaryFormat.double.assemble false m s)).datum = .finite false m s :=
  (BinaryFormat.Number.datum_ofWord BinaryFormat.roomy_double _).trans h.denote_assemble

theorem datum_nearest_zero (den : Nat) :
    (doubleOfWord (BinaryFormat.double.nearest false 0 den)).datum
      = .finite false 0 BinaryFormat.double.minScale := by
  rw [BinaryFormat.nearest, BinaryFormat.nearestMagnitude_zero]
  decide

/-- A quotient of numbers of few bits comes out as a number. -/
theorem exists_datum_nearest (hden : 0 < den) (hnum : num < 2 ^ 200)
    (hden' : den < 2 ^ 200) :
    ∃ m s, (doubleOfWord (BinaryFormat.double.nearest false num den)).datum
      = .finite false m s := by
  rcases Nat.eq_zero_or_pos num with rfl | hpos
  · exact ⟨0, BinaryFormat.double.minScale, datum_nearest_zero den⟩
  · obtain ⟨m, s, hnormal, hword, -⟩ := BinaryFormat.exists_normal_nearest hpos hden
      (scaleOf_double_bounds hnum hden')
    rw [BinaryFormat.nearest, hword]
    exact ⟨m, s, datum_assemble hnormal⟩

/-! ## Whole numbers in double precision -/

/-- A whole number is rounded to a whole number; to itself if it has at most 53 binary digits. -/
theorem exists_whole_significandOf (hpos : 0 < n) (hlt : n < 2 ^ 64) :
    ∃ v : Nat, (v : ℚ)
        = BinaryFormat.double.significandOf n 1 * 2 ^ BinaryFormat.double.scaleOf n 1 ∧
      0 < v ∧ v ≤ 2 ^ 64 ∧ (n < 2 ^ 53 → v = n) := by
  have hscale : BinaryFormat.double.scaleOf n 1 = max (binaryOrder n 1 - 52) (-1074) := rfl
  have horder (k : Nat) (h : n < 2 ^ k) : binaryOrder n 1 < k := by
    have hle := two_zpow_binaryOrder_le hpos Nat.one_pos
    rw [Nat.cast_one, div_one] at hle
    rw [← zpow_lt_zpow_iff_right₀ (one_lt_two (α := ℚ)), zpow_natCast]
    exact hle.trans_lt (by exact_mod_cast h)
  have hlow : BinaryFormat.double.minScale < BinaryFormat.double.scaleOf n 1 := by
    have hlog : -200 ≤ binaryOrder n 1 :=
      (binaryOrder_bounds (by decide) (hlt.trans (by decide)) (by decide)).1
    show (-1074 : Int) < _
    omega
  have hfull := BinaryFormat.le_significandOf hpos Nat.one_pos hlow
  rcases lt_or_ge 0 (BinaryFormat.double.scaleOf n 1) with hlarge | hsmall
  · obtain ⟨k, hk⟩ := Int.eq_ofNat_of_zero_le hlarge.le
    have hkle : k ≤ 11 := by
      have := horder 64 hlt
      omega
    refine ⟨BinaryFormat.double.significandOf n 1 * 2 ^ k, ?_, ?_, ?_, fun hfew => ?_⟩
    · rw [hk, zpow_natCast]
      push_cast
      rfl
    · exact Nat.mul_pos (lt_of_lt_of_le (Nat.two_pow_pos _) hfull) (Nat.two_pow_pos _)
    · calc BinaryFormat.double.significandOf n 1 * 2 ^ k ≤ 2 ^ 53 * 2 ^ 11 :=
            Nat.mul_le_mul (BinaryFormat.significandOf_le n Nat.one_pos)
              (Nat.pow_le_pow_right (by decide) hkle)
        _ = 2 ^ 64 := by norm_num
    · have := horder 53 hfew
      omega
  · -- from units of one downwards nothing is rounded
    have hexact : BinaryFormat.double.significandOf n 1
        = n * 2 ^ (-BinaryFormat.double.scaleOf n 1).toNat := by
      have hunit : (BinaryFormat.double.scaleOf n 1).toNat = 0 := by omega
      rw [BinaryFormat.significandOf, hunit, Nat.pow_zero, Nat.one_mul, roundHalfEven_one]
    refine ⟨n, ?_, hpos, hlt.le, fun _ => rfl⟩
    have hinverse : ((2 : ℚ) ^ (-BinaryFormat.double.scaleOf n 1).toNat)
        * 2 ^ BinaryFormat.double.scaleOf n 1 = 1 := by
      rw [← zpow_natCast, ← zpow_add₀ two_ne_zero]
      have hzero : (((-BinaryFormat.double.scaleOf n 1).toNat : Nat) : Int)
          + BinaryFormat.double.scaleOf n 1 = 0 := by omega
      rw [hzero, zpow_zero]
    rw [hexact, Nat.cast_mul, Nat.cast_pow, Nat.cast_ofNat, mul_assoc, hinverse, mul_one]

/-- What a denoted whole number comes to in the computation of `significant` and of roundings. -/
theorem mul_two_pow_of_whole {m v : Nat} {s : Int} (h : (m : ℚ) * 2 ^ s = v) :
    m * 2 ^ s.toNat = v * 2 ^ (-s).toNat := by
  have hunit : ((2 ^ (-s).toNat : Nat) : ℚ) ≠ 0 := Nat.cast_ne_zero.2 (Nat.two_pow_pos _).ne'
  rw [← ratio_eq, div_eq_iff hunit] at h
  exact_mod_cast h

theorem significant_zero : significant 0 = 0 := by
  have hdenote : BinaryFormat.double.denote (BinaryFormat.double.nearest false 0 1)
      = .finite false 0 BinaryFormat.double.minScale := by
    rw [BinaryFormat.nearest, BinaryFormat.nearestMagnitude_zero]
    decide
  rw [significant, hdenote]
  show 0 * _ / _ = 0
  rw [Nat.zero_mul, Nat.zero_div]

theorem doubleOfInt_natCast (n : Nat) :
    doubleOfInt n = doubleOfWord (BinaryFormat.double.nearest false n 1) := by
  have hsign : ¬(n : Int) < 0 := by omega
  rw [doubleOfInt, BinaryFormat.Number.ofInt, BinaryFormat.encodeInt, decide_eq_false hsign,
    Int.natAbs_natCast]

/-- A positive word as a double precision number: it denotes a whole number, which is what
`significant` computes, and which is the word itself if it has at most 53 binary digits. -/
theorem exists_significant (hpos : 0 < n) (hlt : n < 2 ^ 64) :
    ∃ m s, BinaryFormat.double.Normal m s ∧ (doubleOfInt n).datum = .finite false m s ∧
      (m : ℚ) * 2 ^ s = significant n ∧ 0 < significant n ∧ significant n ≤ 2 ^ 64 ∧
      (n < 2 ^ 53 → significant n = n) := by
  obtain ⟨v, hv, hvpos, hvle, hvexact⟩ := exists_whole_significandOf hpos hlt
  obtain ⟨m, s, hnormal, hword, hvalue⟩ := BinaryFormat.exists_normal_nearest hpos Nat.one_pos
    (scaleOf_double_bounds (hlt.trans (by decide)) (by decide))
  rw [← hv] at hvalue
  have hnearest : BinaryFormat.double.nearest false n 1
      = BinaryFormat.double.assemble false m s := by
    rw [BinaryFormat.nearest, hword, BinaryFormat.assemble]
  have hsignificant : significant n = v := by
    rw [significant, hnearest, hnormal.denote_assemble]
    show m * 2 ^ s.toNat / 2 ^ (-s).toNat = v
    rw [mul_two_pow_of_whole hvalue, Nat.mul_div_cancel _ (Nat.two_pow_pos _)]
  rw [hsignificant]
  refine ⟨m, s, hnormal, ?_, hvalue, hvpos, hvle, hvexact⟩
  rw [doubleOfInt_natCast, hnearest, datum_assemble hnormal]

/-- What has at most 53 binary digits, or is the next number after those, is not rounded. -/
theorem significant_eq (h : n ≤ 2 ^ 53) : significant n = n := by
  rcases Nat.eq_zero_or_pos n with rfl | hpos
  · exact significant_zero
  rcases Nat.lt_or_eq_of_le h with hlt | rfl
  · obtain ⟨m, s, -, -, -, -, -, hexact⟩ := exists_significant hpos (by omega)
    exact hexact hlt
  · decide

/-- A word that was rounded is divided by the number of all words without rounding. -/
theorem quantity_significant_div (hpos : 0 < n) (hlt : n < 2 ^ 64) :
    (doubleOfRatio (significant n) (2 ^ 64)).datum.quantity
      = .finite (significant n / 2 ^ 64) := by
  obtain ⟨m, s, hnormal, -, hvalue, hspos, -⟩ := exists_significant hpos hlt
  have hscale : -53 < s := by
    rw [← zpow_lt_zpow_iff_right₀ (one_lt_two (α := ℚ))]
    have hm : (m : ℚ) < 2 ^ 53 := by exact_mod_cast hnormal.lt
    have hone : (1 : ℚ) ≤ m * 2 ^ s := by
      rw [hvalue]
      exact_mod_cast hspos
    have hpower : (0 : ℚ) < 2 ^ s := zpow_pos two_pos s
    calc (2 : ℚ) ^ (-53 : Int) = 1 / 2 ^ 53 := by norm_num
      _ < 2 ^ s := by
        rw [div_lt_iff₀ (by norm_num), mul_comm]
        exact hone.trans_lt (mul_lt_mul_of_pos_right hm hpower)
  have hdivided : BinaryFormat.double.Normal m (s - 64) :=
    { lt := hnormal.lt
      minScale_le := by
        show (-1074 : Int) ≤ s - 64
        omega
      scale_lt := by
        have := hnormal.scale_lt
        omega
      full := fun _ => hnormal.full (by show (-1074 : Int) < s; omega) }
  have hquotient : (significant n : ℚ) / (2 ^ 64 : Nat) = m * 2 ^ (s - 64) := by
    rw [← hvalue, zpow_sub₀ two_ne_zero, mul_div_assoc]
    norm_num
  rw [doubleOfRatio, if_neg (by decide), hdivided.nearest_eq (by decide) hquotient,
    datum_assemble hdivided, Datum.quantity, signed, if_neg (by decide), ← hquotient]
  norm_num

end StreamQuery.Numeric
