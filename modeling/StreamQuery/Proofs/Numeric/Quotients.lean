import Mathlib
import StreamQuery.Proofs.Numeric.Unpacked
set_option autoImplicit false

/-!
# The quotient of two numbers

The core library divides significands, keeps of the remainder what rounding needs, and shifts the
result to its exponent.  That is rounding to nearest: the quotient of two numbers is the word
nearest to their quotient (`Double.word_div`).
-/

namespace StreamQuery.Numeric

open Float.Model (Format UnpackedFloat totalExponent)
open Float.Model.UnpackedFloat

/-! ## Significands with the rest of a division -/

/-- The significand of a quotient, with what rounding needs to know of the rest. -/
def extended (num den : Nat) : ExtendedMantissa where
  mantissa := num / den
  roundBit := decide (den ≤ 2 * (num % den))
  stickyBit := decide (num % den ≠ 0 ∧ 2 * (num % den) ≠ den)

variable {num den m n : Nat}

theorem ofMantissaAndAccuracy_div (num : Nat) (hden : 0 < den) :
    ExtendedMantissa.ofMantissaAndAccuracy (num / den) (accuracyOfFraction (num % den) den)
      = extended num den := by
  rw [accuracyOfFraction, extended]
  split
  · rename_i hexact
    rw [hexact, decide_eq_false (by omega), decide_eq_false (by omega)]
    rfl
  · rename_i hrest
    cases hcompare : compare (2 * (num % den)) den with
    | lt =>
      have hlt := Nat.compare_eq_lt.1 hcompare
      rw [decide_eq_false (by omega), decide_eq_true ⟨hrest, by omega⟩]
      rfl
    | eq =>
      have heq := Nat.compare_eq_eq.1 hcompare
      rw [decide_eq_true (by omega), decide_eq_false (by omega)]
      rfl
    | gt =>
      have hgt := Nat.compare_eq_gt.1 hcompare
      rw [decide_eq_true (by omega), decide_eq_true ⟨hrest, by omega⟩]
      rfl

/-- Shifting is dividing by two. -/
theorem shiftRightOne_extended (num : Nat) (hden : 0 < den) :
    (extended num den).shiftRightOne = extended num (den * 2) := by
  have hrest := Nat.mod_mul (x := num) (a := den) (b := 2)
  have hmod := Nat.mod_lt num hden
  rw [ExtendedMantissa.shiftRightOne, extended, extended, Nat.div_div_eq_div_mul, hrest]
  rcases Nat.mod_two_eq_zero_or_one (num / den) with heven | hodd
  · rw [heven, Nat.mul_zero, Nat.add_zero]
    congr 1
    · symm
      rw [bne_self_eq_false, decide_eq_false_iff_not]
      omega
    · rw [← Bool.decide_or, decide_eq_decide]
      omega
  · rw [hodd, Nat.mul_one]
    congr 1
    · symm
      rw [decide_eq_true (by omega)]
      rfl
    · rw [← Bool.decide_or, decide_eq_decide]
      omega

theorem shiftRight_extended (num : Nat) (hden : 0 < den) (k : Nat) :
    extended num den >>> k = extended num (den * 2 ^ k) := by
  show k.repeat ExtendedMantissa.shiftRightOne (extended num den) = _
  induction k with
  | zero => rw [Nat.pow_zero, Nat.mul_one, Nat.repeat]
  | succ k ih =>
    rw [Nat.repeat, ih, shiftRightOne_extended num (Nat.mul_pos hden (Nat.two_pow_pos k)),
      Nat.mul_assoc, Nat.pow_succ]

theorem roundedMantissa_extended (num : Nat) (hden : 0 < den) :
    (extended num den).roundedMantissa = roundHalfEven num den := by
  rw [ExtendedMantissa.roundedMantissa, extended, roundHalfEven]
  rcases Nat.lt_trichotomy (2 * (num % den)) den with hlt | heq | hgt
  · rw [decide_eq_false (by omega), if_pos hlt]
    cases decide (num % den ≠ 0 ∧ 2 * (num % den) ≠ den) <;> rfl
  · rw [decide_eq_true (by omega), decide_eq_false (by omega), if_neg (by omega),
      if_neg (by omega)]
    rfl
  · rw [decide_eq_true (by omega), decide_eq_true (by omega), if_neg (by omega), if_pos hgt]
    rfl

namespace BinaryFormat

variable {spec : Format} {significand : Nat} {s e : Int}

/-! ## Shifting to the exponent -/

theorem targetExponent_eq (spec : Format) (k : Int) : spec.targetExponent k
    = max (k - 1 - (ofFormat spec).fractionBits) (ofFormat spec).minScale := by
  have hpow : (2 : Int) ^ (spec.exponentBits - 1)
      = ((2 ^ (spec.exponentBits - 1) : Nat) : Int) := by
    push_cast
    rfl
  rw [Format.targetExponent, Format.minExponent, Format.mantissaBits, minScale,
    fractionBits_ofFormat, exponentBits_ofFormat, hpow]
  omega

theorem targetExponent_totalExponent (spec : Format) (m : Nat) (e : Int) :
    spec.targetExponent (totalExponent m e)
      = max ((m.log2 : Int) + e - (ofFormat spec).fractionBits) (ofFormat spec).minScale := by
  rw [targetExponent_eq, totalExponent, add_right_comm, add_sub_cancel_right]

theorem shiftToTargetExponent_div (m : Nat) (hn : 0 < n) (e : Int) :
    shiftToTargetExponent spec (m / n) e (accuracyOfFraction (m % n) n)
      = (extended m (n * 2 ^ (spec.targetExponent (totalExponent (m / n) e) - e).toNat),
        e + (spec.targetExponent (totalExponent (m / n) e) - e).toNat) := by
  rw [shiftToTargetExponent, shiftToExponent, ofMantissaAndAccuracy_div m hn,
    shiftRight_extended m hn]

/-- What is computed with: a significand at its scale, however large that is. -/
structure Canonical (f : BinaryFormat) (significand : Nat) (scale : Int) : Prop where
  lt : significand < 2 ^ (f.fractionBits + 1)
  minScale_le : f.minScale ≤ scale
  full : f.minScale < scale → 2 ^ f.fractionBits ≤ significand

/-- A rounded significand is shifted once more if there was a carry; that leaves the magnitude. -/
theorem canonical_shiftToTargetExponent
    (hle : significand ≤ 2 ^ ((ofFormat spec).fractionBits + 1))
    (hmin : (ofFormat spec).minScale ≤ s)
    (hfull : (ofFormat spec).minScale < s → 2 ^ (ofFormat spec).fractionBits ≤ significand)
    {shifted : ExtendedMantissa × Int}
    (h : shifted = shiftToTargetExponent spec significand s .exact) :
    (ofFormat spec).Canonical shifted.1.mantissa shifted.2 ∧
      shifted.1.mantissa
          + (shifted.2 - (ofFormat spec).minScale).toNat * 2 ^ (ofFormat spec).fractionBits
        = significand
          + (s - (ofFormat spec).minScale).toNat * 2 ^ (ofFormat spec).fractionBits := by
  have hexact : shiftToTargetExponent spec significand s .exact
      = shiftToTargetExponent spec (significand / 1) s
          (accuracyOfFraction (significand % 1) 1) := by
    rw [Nat.div_one, Nat.mod_one]
    rfl
  rw [h, hexact, shiftToTargetExponent_div significand Nat.one_pos, Nat.div_one,
    targetExponent_totalExponent, Nat.one_mul]
  generalize hf : ofFormat spec = f at *
  rcases Nat.lt_or_eq_of_le hle with hlt | rfl
  · -- the significand has its digits already
    have hlog : significand.log2 ≤ f.fractionBits := by
      rcases Nat.eq_zero_or_pos significand with rfl | hpos
      · exact Nat.zero_le _
      · exact Nat.lt_succ_iff.1 ((Nat.log2_lt hpos.ne').2 hlt)
    have hshift :
        (max ((significand.log2 : Int) + s - f.fractionBits) f.minScale - s).toNat = 0 := by
      omega
    rw [hshift]
    simp only [extended, Nat.pow_zero, Nat.div_one, Nat.cast_zero, add_zero]
    exact ⟨⟨hlt, hmin, hfull⟩, trivial⟩
  · have hshift : (max (((2 ^ (f.fractionBits + 1)).log2 : Int) + s - f.fractionBits) f.minScale
        - s).toNat = 1 := by
      rw [Nat.log2_two_pow]
      omega
    have hhalf : 2 ^ (f.fractionBits + 1) / 2 = 2 ^ f.fractionBits := by
      rw [Nat.pow_succ, Nat.mul_div_cancel _ two_pos]
    have hscale : (s + 1 - f.minScale).toNat = (s - f.minScale).toNat + 1 := by omega
    rw [hshift]
    simp only [extended, Nat.pow_one, hhalf, Nat.cast_one]
    refine ⟨⟨Nat.pow_lt_pow_right (by decide) (Nat.lt_succ_self _), by omega, fun _ => le_rfl⟩, ?_⟩
    rw [hscale, Nat.add_mul, Nat.one_mul, Nat.pow_succ]
    omega

/-! ## Packing -/

/-- What is computed is packed to its magnitude, or to infinity. -/
theorem Canonical.pack (hspec : 2 ≤ spec.exponentBits)
    (h : (ofFormat spec).Canonical significand s) (negative : Bool) :
    (UnpackedFloat.pack spec (Datum.finite negative significand s).unpacked).toNat
      = (ofFormat spec).signWord negative
        + min (significand
            + (s - (ofFormat spec).minScale).toNat * 2 ^ (ofFormat spec).fractionBits)
          (ofFormat spec).infinityWord := by
  rcases Nat.lt_or_ge ((s - (ofFormat spec).minScale).toNat + 2) (2 ^ spec.exponentBits)
    with hsmall | hlarge
  · have hnormal : (ofFormat spec).Normal significand s :=
      ⟨h.lt, h.minScale_le, hsmall, h.full⟩
    have hdenote : (ofFormat spec).denote ((ofFormat spec).assemble negative significand s)
        = .finite negative significand s := hnormal.denote_assemble
    rw [Nat.min_eq_left hnormal.magnitude_lt.le, ← hdenote]
    refine pack_unpacked hspec (hnormal.assemble_lt negative) ?_
    rw [hdenote]
    rfl
  · have hfour : 2 ^ 2 ≤ 2 ^ spec.exponentBits := Nat.pow_le_pow_right (by decide) hspec
    have hfull := h.full (by omega)
    have hpos : 0 < significand := (Nat.two_pow_pos _).trans_le hfull
    have hmagnitude : (ofFormat spec).infinityWord ≤ significand
        + (s - (ofFormat spec).minScale).toNat * 2 ^ (ofFormat spec).fractionBits := by
      calc (ofFormat spec).infinityWord
          ≤ ((s - (ofFormat spec).minScale).toNat + 1) * 2 ^ (ofFormat spec).fractionBits :=
            Nat.mul_le_mul_right _ (Nat.sub_le_of_le_add hlarge)
        _ ≤ _ := by
            rw [Nat.add_mul]
            omega
    rw [Nat.min_eq_right hmagnitude, Datum.unpacked, dif_neg hpos.ne']
    exact pack_of_large hspec negative hpos hlarge

/-! ## Rounding -/

section Rounding

variable (hnum : 0 < num) (hden : 0 < den) (hn : 0 < n) (hvalue : (num : ℚ) / den = m / n * 2 ^ e)
  (hsmall : m / n = 0 → e ≤ (ofFormat spec).minScale)
include hnum hden hn hvalue hsmall

/-- The exponent to shift to is the scale of the quotient. -/
theorem targetExponent_eq_scaleOf : spec.targetExponent (totalExponent (m / n) e)
    = (ofFormat spec).scaleOf num den := by
  have hpow : (0 : ℚ) < 2 ^ e := zpow_pos two_pos e
  have habove : (m : ℚ) / n < (m / n : Nat) + 1 := by
    rw [div_lt_iff₀ (Nat.cast_pos.2 hn)]
    rw [mul_comm]
    exact_mod_cast Nat.lt_mul_div_succ m hn
  have hbelow : ((m / n : Nat) : ℚ) ≤ m / n := Nat.cast_div_le
  rw [targetExponent_totalExponent, scaleOf]
  rcases Nat.eq_zero_or_pos (m / n) with hzero | hpos
  · have horder : binaryOrder num den < e := by
      rw [← zpow_lt_zpow_iff_right₀ (one_lt_two (α := ℚ))]
      refine (two_zpow_binaryOrder_le hnum hden).trans_lt ?_
      rw [hzero, Nat.cast_zero, zero_add] at habove
      rw [hvalue]
      exact mul_lt_of_lt_one_left hpow habove
    have hmin := hsmall hzero
    rw [hzero, Nat.log2_zero]
    omega
  · have horder : binaryOrder num den = (m / n).log2 + e := by
      apply binaryOrder_eq hnum hden
      · have hlog : ((2 ^ (m / n).log2 : Nat) : ℚ) ≤ (m / n : Nat) :=
          Nat.cast_le.2 (Nat.log2_self_le hpos.ne')
        rw [hvalue, zpow_add₀ two_ne_zero, zpow_natCast]
        push_cast at hlog
        exact mul_le_mul_of_nonneg_right (hlog.trans hbelow) hpow.le
      · have hlog : ((m / n : Nat) : ℚ) + 1 ≤ (2 ^ ((m / n).log2 + 1) : Nat) := by
          exact_mod_cast Nat.succ_le_of_lt Nat.lt_log2_self
        rw [hvalue, add_right_comm, zpow_add₀ two_ne_zero, ← Nat.cast_succ, zpow_natCast]
        push_cast at hlog
        exact mul_lt_mul_of_pos_right (habove.trans_le hlog) hpow
    rw [horder]

variable (hscale : e ≤ (ofFormat spec).scaleOf num den)
include hscale

omit hnum hsmall in
/-- After the first shift, the significand rounds as the quotient does. -/
theorem roundHalfEven_eq_significandOf :
    roundHalfEven m (n * 2 ^ ((ofFormat spec).scaleOf num den - e).toNat)
      = (ofFormat spec).significandOf num den := by
  have hshift : ((((ofFormat spec).scaleOf num den - e).toNat : Nat) : Int)
      = (ofFormat spec).scaleOf num den - e := Int.toNat_of_nonneg (by omega)
  have hn' : 0 < n * 2 ^ ((ofFormat spec).scaleOf num den - e).toNat :=
    Nat.mul_pos hn (Nat.two_pow_pos _)
  have hden' : 0 < den * 2 ^ ((ofFormat spec).scaleOf num den).toNat :=
    Nat.mul_pos hden (Nat.two_pow_pos _)
  have hquotient := scaled_quotient num den ((ofFormat spec).scaleOf num den)
  rw [significandOf]
  apply roundHalfEven_congr hn' hden'
  have hsame : (m : ℚ) / (n * 2 ^ ((ofFormat spec).scaleOf num den - e).toNat : Nat)
      = (num * 2 ^ (-(ofFormat spec).scaleOf num den).toNat : Nat)
        / (den * 2 ^ ((ofFormat spec).scaleOf num den).toNat : Nat) := by
    rw [hquotient, hvalue, Nat.cast_mul, Nat.cast_pow, Nat.cast_ofNat, ← zpow_natCast, hshift,
      zpow_sub₀ two_ne_zero, mul_div_assoc', div_div_eq_mul_div, mul_div_mul_comm, mul_div_assoc]
  rw [div_eq_div_iff (Nat.cast_ne_zero.2 hn'.ne') (Nat.cast_ne_zero.2 hden'.ne')] at hsame
  exact_mod_cast hsame

/-- A quotient, kept as a significand and the rest of a division, is rounded to nearest. -/
theorem pack_roundWithAccuracy (hspec : 2 ≤ spec.exponentBits) (negative : Bool) :
    (UnpackedFloat.pack spec (roundWithAccuracy spec (signOf negative) (m / n) e
        (accuracyOfFraction (m % n) n))).toNat
      = (ofFormat spec).nearest negative num den := by
  have htarget := targetExponent_eq_scaleOf hnum hden hn hvalue hsmall
  have hshifted : shiftToTargetExponent spec (m / n) e (accuracyOfFraction (m % n) n)
      = (extended m (n * 2 ^ ((ofFormat spec).scaleOf num den - e).toNat),
        (ofFormat spec).scaleOf num den) := by
    rw [shiftToTargetExponent_div m hn, htarget, Int.toNat_of_nonneg (by omega)]
    congr 1
    omega
  have hrounded : (extended m (n * 2 ^ ((ofFormat spec).scaleOf num den - e).toNat)).roundedMantissa
      = (ofFormat spec).significandOf num den := by
    rw [roundedMantissa_extended m (Nat.mul_pos hn (Nat.two_pow_pos _)),
      roundHalfEven_eq_significandOf hden hn hvalue hscale]
  obtain ⟨hcanonical, hmagnitude⟩ := canonical_shiftToTargetExponent
    (significandOf_le (f := ofFormat spec) num hden) ((ofFormat spec).minScale_le_scaleOf num den)
    (le_significandOf hnum hden) rfl
  have hresult : roundWithAccuracy spec (signOf negative) (m / n) e (accuracyOfFraction (m % n) n)
      = (Datum.finite negative
          (shiftToTargetExponent spec ((ofFormat spec).significandOf num den)
            ((ofFormat spec).scaleOf num den) .exact).1.mantissa
          (shiftToTargetExponent spec ((ofFormat spec).significandOf num den)
            ((ofFormat spec).scaleOf num den) .exact).2).unpacked := by
    simp only [roundWithAccuracy, hshifted, hrounded, Datum.unpacked]
  rw [hresult, hcanonical.pack hspec, hmagnitude, nearest, nearestMagnitude_eq hnum,
    roundedMagnitude]

end Rounding

/-! ## Dividing -/

/-- The order of a quotient is known from those of the two numbers but for one. -/
theorem two_zpow_lt_quotient {m₁ m₂ : Nat} {e₁ e₂ : Int} (hm₁ : 0 < m₁) (hm₂ : 0 < m₂) :
    (2 : ℚ) ^ (totalExponent m₁ e₁ - totalExponent m₂ e₂ - 1) < m₁ * 2 ^ e₁ / (m₂ * 2 ^ e₂) := by
  have hbelow : (2 : ℚ) ^ (m₁.log2 : Int) ≤ m₁ := by
    rw [zpow_natCast]
    exact_mod_cast Nat.log2_self_le hm₁.ne'
  have habove : (m₂ : ℚ) < 2 ^ ((m₂.log2 : Int) + 1) := by
    rw [← Nat.cast_succ, zpow_natCast]
    exact_mod_cast Nat.lt_log2_self
  have hsplit : totalExponent m₁ e₁ - totalExponent m₂ e₂ - 1
      = (m₁.log2 + e₁) - ((m₂.log2 + 1) + e₂) := by
    rw [totalExponent, totalExponent]
    omega
  have hpos : (0 : ℚ) < m₂ * 2 ^ e₂ := mul_pos (Nat.cast_pos.2 hm₂) (zpow_pos two_pos _)
  rw [hsplit, zpow_sub₀ two_ne_zero, zpow_add₀ two_ne_zero, zpow_add₀ two_ne_zero (_ + 1)]
  apply div_lt_div₀' (mul_le_mul_of_nonneg_right hbelow (zpow_pos two_pos _).le)
    (mul_lt_mul_of_pos_right habove (zpow_pos two_pos _))
    (mul_pos (Nat.cast_pos.2 hm₁) (zpow_pos two_pos _)) hpos

/-- Dividing significands with as many digits as are needed rounds to nearest. -/
theorem pack_divCore {m₁ m₂ : Nat} {e₁ e₂ : Int} (hspec : 2 ≤ spec.exponentBits) (hm₁ : 0 < m₁)
    (hm₂ : 0 < m₂) (hnum : 0 < num) (hden : 0 < den)
    (hvalue : (num : ℚ) / den = m₁ * 2 ^ e₁ / (m₂ * 2 ^ e₂)) (negative : Bool) :
    (UnpackedFloat.pack spec (roundWithAccuracy spec (signOf negative)
        (divCore spec m₁ e₁ m₂ e₂).1 (divCore spec m₁ e₁ m₂ e₂).2.1
        (divCore spec m₁ e₁ m₂ e₂).2.2)).toNat
      = (ofFormat spec).nearest negative num den := by
  have hlower : (2 : ℚ) ^ (totalExponent m₁ e₁ - totalExponent m₂ e₂ - 1)
      < m₁ * 2 ^ e₁ / (m₂ * 2 ^ e₂) := two_zpow_lt_quotient hm₁ hm₂
  simp only [divCore, Nat.shiftLeft_eq, targetExponent_eq]
  generalize totalExponent m₁ e₁ - totalExponent m₂ e₂ - 1 = order at hlower ⊢
  generalize ht : min (e₁ - e₂) (max (order - (ofFormat spec).fractionBits)
    (ofFormat spec).minScale) = t
  have hdigits : (num : ℚ) / den = (m₁ * 2 ^ (e₁ - e₂ - t).toNat : Nat) / m₂ * 2 ^ t := by
    have hshift : ((e₁ - e₂ - t).toNat : Int) = e₁ - e₂ - t := Int.toNat_of_nonneg (by omega)
    have hscales : (2 : ℚ) ^ (e₁ - e₂ - t) * 2 ^ t = 2 ^ e₁ / 2 ^ e₂ := by
      rw [← zpow_add₀ two_ne_zero, sub_add_cancel, zpow_sub₀ two_ne_zero]
    rw [hvalue, Nat.cast_mul, Nat.cast_pow, Nat.cast_ofNat, ← zpow_natCast, hshift,
      mul_div_mul_comm, ← hscales, mul_div_right_comm, mul_assoc]
  refine pack_roundWithAccuracy hnum hden hm₂ hdigits ?_ ?_ hspec negative
  · intro hzero
    -- without a digit the quotient is less than one unit
    have hless : (num : ℚ) / den < 2 ^ t := by
      rw [hdigits]
      apply mul_lt_of_lt_one_left (zpow_pos two_pos _)
      rw [div_lt_one (Nat.cast_pos.2 hm₂)]
      exact_mod_cast (Nat.div_eq_zero_iff_lt hm₂).1 hzero
    have horder := hlower.trans (hvalue ▸ hless)
    rw [zpow_lt_zpow_iff_right₀ one_lt_two] at horder
    omega
  · have horder := hlower.trans (hvalue ▸ lt_two_zpow_binaryOrder num hden)
    rw [zpow_lt_zpow_iff_right₀ one_lt_two] at horder
    rw [scaleOf]
    omega

/-- The quotient of two finite numbers is rounded to nearest. -/
theorem pack_div {significand' : Nat} {s' : Int} (hspec : 2 ≤ spec.exponentBits)
    (hpos : 0 < significand') (hden : 0 < den)
    (hvalue : (num : ℚ) / den = significand * 2 ^ s / (significand' * 2 ^ s'))
    (negative negative' : Bool) :
    (UnpackedFloat.pack spec (UnpackedFloat.div spec
        (Datum.finite negative significand s).unpacked
        (Datum.finite negative' significand' s').unpacked)).toNat
      = (ofFormat spec).nearest (negative ^^ negative') num den := by
  have hpow : (0 : ℚ) < significand' * 2 ^ s' :=
    mul_pos (Nat.cast_pos.2 hpos) (zpow_pos two_pos _)
  rcases Nat.eq_zero_or_pos significand with rfl | hsignificand
  · have hzero : num = 0 := by
      rw [Nat.cast_zero, zero_mul, zero_div, div_eq_zero_iff] at hvalue
      exact_mod_cast hvalue.resolve_right (Nat.cast_ne_zero.2 hden.ne')
    have hcanonical : (ofFormat spec).Canonical 0 (ofFormat spec).minScale :=
      ⟨Nat.two_pow_pos _, le_rfl, fun hlt => (lt_irrefl _ hlt).elim⟩
    have hpacked := hcanonical.pack hspec (negative ^^ negative')
    rw [Datum.unpacked, dif_pos rfl] at hpacked
    rw [Datum.unpacked, dif_pos rfl, Datum.unpacked, dif_neg hpos.ne',
      UnpackedFloat.div, signOf_div, hpacked, hzero, nearest, nearestMagnitude_zero]
    simp
  · have hnum : 0 < num := by
      have hquotient : (0 : ℚ) < num / den := hvalue ▸ div_pos
        (mul_pos (Nat.cast_pos.2 hsignificand) (zpow_pos two_pos _)) hpow
      exact Nat.cast_pos.1 ((div_pos_iff_of_pos_right (Nat.cast_pos.2 hden)).1 hquotient)
    rw [Datum.unpacked, dif_neg hsignificand.ne', Datum.unpacked, dif_neg hpos.ne',
      UnpackedFloat.div, signOf_div]
    exact pack_divCore hspec hsignificand hpos hnum hden hvalue _

end BinaryFormat

/-! ## Double precision -/

namespace BinaryFormat.Number

variable {f : BinaryFormat}

/-- A result that is a number keeps its word. -/
theorem word_ofResult (hf : f.Roomy) (negative : Bool) {word : Nat}
    (hword : word < 2 * f.signWeight) (hnan : (f.denote word).isNaN = false) :
    (ofResult f negative word).word = word := by
  rw [ofResult]
  split
  · rename_i hdatum
    rw [hdatum] at hnan
    cases hnan
  · exact word_ofWord hf hword hnan

end BinaryFormat.Number

namespace Double

open BinaryFormat

variable {x y : Double} {negative negative' : Bool} {significand significand' num den : Nat}
  {s s' : Int}

/-- A number has the same word in the core library. -/
theorem toNat_toBits_toCore (hnan : x.datum.isNaN = false) : x.toCore.toBits.toNat = x.word := by
  have hword := Number.word_lt roomy_double x
  have htoNat : (UInt64.ofNat x.word).toBitVec.toNat = x.word := UInt64.toNat_ofNat_of_lt hword
  have hunpack : UnpackedFloat.unpack Format.binary64 (UInt64.ofNat x.word).toBitVec
      = ((ofFormat .binary64).denote (UInt64.ofNat x.word).toBitVec.toNat).unpacked :=
    unpack_eq_unpacked _
  have hbits : x.toCore.toBits.toNat = (UnpackedFloat.pack Format.binary64
      (UnpackedFloat.unpack Format.binary64 (UInt64.ofNat x.word).toBitVec)).toNat := rfl
  rw [hbits, hunpack, htoNat]
  exact pack_unpacked (by decide) hword hnan

theorem unpack_toCore (hnan : x.datum.isNaN = false) :
    x.toCore.toModel.unpack = x.datum.unpacked := by
  have hunpack : x.toCore.toModel.unpack
      = ((ofFormat .binary64).denote x.toCore.toBits.toNat).unpacked := unpack_eq_unpacked _
  rw [hunpack, toNat_toBits_toCore hnan]
  rfl

/-- The quotient of two double precision numbers is the word nearest to their quotient. -/
theorem word_div (hx : x.datum = .finite negative significand s)
    (hy : y.datum = .finite negative' significand' s') (hpos : 0 < significand') (hden : 0 < den)
    (hvalue : (num : ℚ) / den = significand * 2 ^ s / (significand' * 2 ^ s')) :
    (x / y).word = double.nearest (negative ^^ negative') num den := by
  have hquotient : (x.toCore / y.toCore).toBits.toNat = (UnpackedFloat.pack Format.binary64
      (UnpackedFloat.div Format.binary64 x.toCore.toModel.unpack y.toCore.toModel.unpack)).toNat :=
    rfl
  rw [unpack_toCore (by rw [hx]; rfl), unpack_toCore (by rw [hy]; rfl), hx, hy] at hquotient
  have hnearest : (x.toCore / y.toCore).toBits.toNat
      = double.nearest (negative ^^ negative') num den :=
    hquotient.trans (pack_div (by decide) hpos hden hvalue negative negative')
  have hresult : x / y
      = Number.ofResult .double (x.nanSign y) (x.toCore / y.toCore).toBits.toNat := rfl
  have hmagnitude := double.nearestMagnitude_le num den
  rw [hresult, hnearest]
  exact Number.word_ofResult roomy_double _
    (double.signWord_add_lt _ (hmagnitude.trans_lt double.infinityWord_lt))
    (isNaN_denote_of_le hmagnitude)

end Double

end StreamQuery.Numeric
