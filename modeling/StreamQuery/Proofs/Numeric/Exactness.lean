import Mathlib
import StreamQuery.Proofs.Numeric.Orders
import StreamQuery.Proofs.Numeric.Words
set_option autoImplicit false

/-!
# Conversions that are exact

Rounding a number that the format has gives that number (`BinaryFormat.Normal.nearestMagnitude`).
So single precision widens exactly, an integer that is the value of a floating-point number converts
to that number, and whole numbers are recognised.
-/

namespace StreamQuery.Numeric

variable {num den n significand : Nat} {s scale : Int} {negative : Bool}

/-! ## Orders of magnitude as powers -/

theorem two_zpow_eq (k : Int) : (2 : ℚ) ^ k = (2 ^ k.toNat : Nat) / (2 ^ (-k).toNat : Nat) := by
  push_cast
  rw [← zpow_natCast, ← zpow_natCast, ← zpow_sub₀ two_ne_zero]
  congr 1
  omega

/-- A quotient is at least the power of two of its order. -/
theorem two_zpow_binaryOrder_le (hnum : 0 < num) (hden : 0 < den) :
    (2 : ℚ) ^ binaryOrder num den ≤ num / den := by
  rw [two_zpow_eq, div_le_div_iff₀ (Nat.cast_pos.2 (Nat.two_pow_pos _)) (Nat.cast_pos.2 hden),
    mul_comm]
  exact_mod_cast binaryOrder_le hnum

/-- A quotient is below the next power of two. -/
theorem lt_two_zpow_binaryOrder (num : Nat) (hden : 0 < den) :
    (num : ℚ) / den < 2 ^ (binaryOrder num den + 1) := by
  have hnumber : (num : ℚ) < 2 ^ ((num.log2 : Int) + 1) := by
    exact_mod_cast Nat.lt_log2_self (n := num)
  have hdenominator : (2 : ℚ) ^ (den.log2 : Int) ≤ den := by
    exact_mod_cast Nat.log2_self_le hden.ne'
  have hpos : (0 : ℚ) < den := Nat.cast_pos.2 hden
  simp only [binaryOrder]
  split
  · rename_i hbelow
    rw [Int.sub_add_cancel, two_zpow_eq, div_lt_div_iff₀ hpos
      (Nat.cast_pos.2 (Nat.two_pow_pos _)), mul_comm _ (den : ℚ)]
    exact_mod_cast hbelow
  · rw [div_lt_iff₀ hpos]
    calc (num : ℚ) < 2 ^ ((num.log2 : Int) + 1) := hnumber
      _ = 2 ^ ((num.log2 : Int) - den.log2 + 1) * 2 ^ (den.log2 : Int) := by
          rw [← zpow_add₀ two_ne_zero]
          congr 1
          omega
      _ ≤ 2 ^ ((num.log2 : Int) - den.log2 + 1) * den :=
          mul_le_mul_of_nonneg_left hdenominator (zpow_pos two_pos _).le

/-! ## Rounding what needs no rounding -/

theorem roundHalfEven_mul (n : Nat) (hden : 0 < den) : roundHalfEven (n * den) den = n := by
  rw [roundHalfEven, Nat.mul_div_cancel _ hden, Nat.mul_mod_left, if_pos (by omega)]

namespace BinaryFormat

variable {f : BinaryFormat}

/-- The magnitude nearest to a number of the format is that number. -/
theorem Normal.nearestMagnitude (h : f.Normal n s) (hpos : 0 < n) (hden : 0 < den)
    (hvalue : (num : ℚ) / den = n * 2 ^ s) :
    f.nearestMagnitude num den = n + (s - f.minScale).toNat * 2 ^ f.fractionBits := by
  have hden' : (0 : ℚ) < den := Nat.cast_pos.2 hden
  have hvalue_pos : (0 : ℚ) < num / den := by
    rw [hvalue]
    exact mul_pos (Nat.cast_pos.2 hpos) (zpow_pos two_pos s)
  have hnum : 0 < num := Nat.cast_pos.1 ((div_pos_iff_of_pos_right hden').1 hvalue_pos)
  have hscale : max (binaryOrder num den - f.fractionBits) f.minScale = s := by
    have hle := two_zpow_binaryOrder_le hnum hden
    have hlt := lt_two_zpow_binaryOrder num hden
    rw [hvalue] at hle hlt
    have hupper : binaryOrder num den < f.fractionBits + 1 + s := by
      rw [← zpow_lt_zpow_iff_right₀ (one_lt_two (α := ℚ)), zpow_add₀ two_ne_zero]
      refine hle.trans_lt (mul_lt_mul_of_pos_right ?_ (zpow_pos two_pos s))
      exact_mod_cast h.lt
    have hmin := h.minScale_le
    rcases Int.lt_or_eq_of_le hmin with hlarge | hsmall
    · have hlower : (f.fractionBits : Int) + s < binaryOrder num den + 1 := by
        rw [← zpow_lt_zpow_iff_right₀ (one_lt_two (α := ℚ)), zpow_add₀ two_ne_zero]
        refine lt_of_le_of_lt (mul_le_mul_of_nonneg_right ?_ (zpow_pos two_pos s).le) hlt
        exact_mod_cast h.full hlarge
      omega
    · omega
  have hrounded : roundHalfEven (num * 2 ^ (-s).toNat) (den * 2 ^ s.toNat) = n := by
    have hexact : num * 2 ^ (-s).toNat = n * (den * 2 ^ s.toNat) := by
      have hpower : (0 : ℚ) < (2 ^ (-s).toNat : Nat) := Nat.cast_pos.2 (Nat.two_pow_pos _)
      rw [two_zpow_eq, ← mul_div_assoc, div_eq_div_iff hden'.ne' hpower.ne'] at hvalue
      have hnat : num * 2 ^ (-s).toNat = n * 2 ^ s.toNat * den := by exact_mod_cast hvalue
      rw [hnat]
      ac_rfl
    rw [hexact]
    exact roundHalfEven_mul n (Nat.mul_pos hden (Nat.two_pow_pos _))
  simp only [BinaryFormat.nearestMagnitude]
  rw [if_neg hnum.ne', hscale, hrounded]
  exact Nat.min_eq_left h.magnitude_lt.le

/-- The word nearest to a number of the format is the word of that number. -/
theorem Normal.nearest_eq (h : f.Normal n s) (hden : 0 < den) (hvalue : (num : ℚ) / den = n * 2 ^ s)
    (negative : Bool) : f.nearest negative num den = f.assemble negative n s := by
  rw [nearest, assemble]
  rcases Nat.eq_zero_or_pos n with rfl | hpos
  · have hnum : num = 0 := by
      rw [Nat.cast_zero, zero_mul, div_eq_zero_iff] at hvalue
      exact Nat.cast_eq_zero.1 (hvalue.resolve_right (Nat.cast_ne_zero.2 hden.ne'))
    have hscale : (s - f.minScale).toNat = 0 := by
      rw [h.eq_minScale, Int.sub_self]
      rfl
    rw [hnum, f.nearestMagnitude_zero, hscale, Nat.zero_mul]
  · rw [h.nearestMagnitude hpos hden hvalue]

/-- A significand that is not too long can be brought to all its digits. -/
theorem exists_normal (hlt : significand < 2 ^ (f.fractionBits + 1))
    (hmin : f.minScale + f.fractionBits ≤ scale)
    (hmax : (scale - f.minScale).toNat + 2 < 2 ^ f.exponentBits) :
    ∃ n s, f.Normal n s ∧ (n : ℚ) * 2 ^ s = significand * 2 ^ scale := by
  rcases Nat.eq_zero_or_pos significand with rfl | hpos
  · refine ⟨0, f.minScale,
      ⟨Nat.two_pow_pos _, le_rfl, by omega, fun h => absurd h (lt_irrefl _)⟩, ?_⟩
    rw [Nat.cast_zero, zero_mul, zero_mul]
  · have hbelow : 2 ^ significand.log2 ≤ significand := Nat.log2_self_le hpos.ne'
    have habove : significand < 2 ^ (significand.log2 + 1) := Nat.lt_log2_self
    have hlog : significand.log2 < f.fractionBits + 1 := (Nat.log2_lt hpos.ne').2 hlt
    obtain ⟨shift, hshift⟩ := Nat.exists_eq_add_of_lt hlog
    have hdigits : f.fractionBits = significand.log2 + shift := by omega
    refine ⟨significand * 2 ^ shift, scale - shift, ⟨?_, by omega, by omega, fun _ => ?_⟩, ?_⟩
    · rw [hshift, Nat.add_right_comm, Nat.pow_add]
      exact Nat.mul_lt_mul_of_pos_right habove (Nat.two_pow_pos _)
    · rw [hdigits, Nat.pow_add]
      exact Nat.mul_le_mul_right _ hbelow
    · rw [Nat.cast_mul, Nat.cast_pow, Nat.cast_ofNat, mul_assoc, ← zpow_natCast,
        ← zpow_add₀ two_ne_zero]
      congr 2
      omega

end BinaryFormat

/-! ## Integers -/

theorem ratio_eq (significand : Nat) (scale : Int) :
    ((significand * 2 ^ scale.toNat : Nat) : ℚ) / (2 ^ (-scale).toNat : Nat)
      = significand * 2 ^ scale := by
  rw [two_zpow_eq, Nat.cast_mul, mul_div_assoc]

/-- The word nearest to an integer that a word denotes is that word. -/
theorem BinaryFormat.encodeInt_of_quantity {f : BinaryFormat} {word : Nat} {k : Int}
    (hf : 2 ≤ f.exponentBits) (hword : word < 2 * f.signWeight)
    (hquantity : (f.denote word).quantity = .finite k)
    (hsign : (f.denote word).hiddenSign = false) : f.encodeInt k = word := by
  cases hd : f.denote word with
  | nan negative => simp [hd, Datum.quantity] at hquantity
  | infinite negative => simp [hd, Datum.quantity] at hquantity
  | finite negative n s =>
    rw [hd] at hquantity hsign
    obtain ⟨hn, rfl⟩ := normal_of_denote hf hd hword
    have hvalue : signed negative (n * 2 ^ s) = k := Quantity.finite.inj hquantity
    have hnonneg : (0 : ℚ) ≤ n * 2 ^ s := mul_nonneg (Nat.cast_nonneg n) (zpow_pos two_pos s).le
    have hmagnitude : ((k.natAbs : Nat) : ℚ) / (1 : Nat) = n * 2 ^ s := by
      rw [Nat.cast_one, div_one, Nat.cast_natAbs, Int.cast_abs, ← hvalue, abs_signed _ hnonneg]
    have hnegative : decide (k < 0) = negative := by
      cases negative
      · have : (0 : ℚ) ≤ k := hvalue ▸ hnonneg
        exact decide_eq_false (not_lt.2 (Int.cast_nonneg_iff.1 this))
      · have hne : n ≠ 0 := by
          rintro rfl
          simp [Datum.hiddenSign] at hsign
        have hpos : (0 : ℚ) < n * 2 ^ s :=
          mul_pos (Nat.cast_pos.2 (Nat.pos_of_ne_zero hne)) (zpow_pos two_pos s)
        have : (k : ℚ) < 0 := hvalue ▸ neg_neg_of_pos hpos
        exact decide_eq_true (Int.cast_lt_zero.1 this)
    rw [encodeInt, hn.nearest_eq Nat.one_pos hmagnitude, hnegative]

namespace Datum

/-- The integer of a datum is what is denoted. -/
theorem whole?_eq_some_iff {d : Datum} {k : Int} :
    d.whole? = some k ↔ d.quantity = .finite k := by
  cases d with
  | nan negative => simp [whole?, quantity]
  | infinite negative => simp [whole?, quantity]
  | finite negative significand scale =>
    have hratio := ratio_eq significand scale
    have hunit : ((2 ^ (-scale).toNat : Nat) : ℚ) ≠ 0 :=
      Nat.cast_ne_zero.2 (Nat.two_pow_pos _).ne'
    simp only [whole?, quantity, Quantity.finite.injEq]
    split
    · rename_i hdivides
      have hdvd : 2 ^ (-scale).toNat ∣ significand * 2 ^ scale.toNat :=
        (Nat.dvd_of_mod_eq_zero hdivides).mul_right _
      rw [← hratio, ← Nat.cast_div hdvd hunit, signed_natCast, Int.cast_inj, Option.some_inj]
    · rename_i hdivides
      refine iff_of_false (by simp) fun hwhole => hdivides ?_
      have hmagnitude : (significand : ℚ) * 2 ^ scale = (k.natAbs : Nat) := by
        have hnonneg : (0 : ℚ) ≤ significand * 2 ^ scale :=
          mul_nonneg (Nat.cast_nonneg _) (zpow_pos two_pos _).le
        rw [Nat.cast_natAbs, Int.cast_abs, ← hwhole, abs_signed _ hnonneg]
      rw [hmagnitude, div_eq_iff hunit] at hratio
      have hproduct : significand * 2 ^ scale.toNat = k.natAbs * 2 ^ (-scale).toNat := by
        exact_mod_cast hratio
      rcases Int.le_total 0 scale with hscale | hscale
      · have hone : (-scale).toNat = 0 := by omega
        rw [hone, Nat.pow_zero, Nat.mod_one]
      · have hone : scale.toNat = 0 := by omega
        rw [hone, Nat.pow_zero, Nat.mul_one] at hproduct
        rw [hproduct, Nat.mul_mod_left]

end Datum

/-! ## Conversions between precisions -/

section Conversions

open BinaryFormat (Number)

variable {f : BinaryFormat} {k : Int}

/-- The number nearest to the integer that a number denotes is that number. -/
theorem BinaryFormat.Number.ofInt_eq {x : f.Number} (hf : f.Roomy)
    (h : x.datum.quantity = .finite k) (hsign : x.datum.hiddenSign = false) : ofInt k = x := by
  rw [ofInt, encodeInt_of_quantity hf.exponents (word_lt hf x) h hsign, ofWord_word hf]

/-- A finite single precision number keeps its sign and its value in double precision. -/
theorem denote_encode_finite {word : Nat} {negative : Bool}
    (h : BinaryFormat.single.denote word = .finite negative n s)
    (hword : word < 2 * BinaryFormat.single.signWeight) :
    ∃ m t, BinaryFormat.double.denote (BinaryFormat.double.encode (.finite negative n s))
        = .finite negative m t ∧ (m : ℚ) * 2 ^ t = n * 2 ^ s := by
  obtain ⟨hn, -⟩ := BinaryFormat.normal_of_denote (by decide) h hword
  have hlt : n < 2 ^ 24 := hn.lt
  have hlo : (-149 : Int) ≤ s := hn.minScale_le
  have hhi : (s - -149).toNat + 2 < 256 := hn.scale_lt
  obtain ⟨m, t, hm, hvalue⟩ := BinaryFormat.double.exists_normal (hlt.trans (by decide))
    (show -1074 + 52 ≤ s by omega) (show (s - -1074).toNat + 2 < 2048 by omega)
  have hencode : BinaryFormat.double.encode (.finite negative n s)
      = BinaryFormat.double.assemble negative m t :=
    hm.nearest_eq (Nat.two_pow_pos _) ((ratio_eq n s).trans hvalue.symm) negative
  exact ⟨m, t, hencode ▸ hm.denote_assemble, hvalue⟩

/-- Widening keeps what is denoted, and the sign that is hidden in it. -/
theorem denote_widen (u : Single) :
    (widen u).datum.quantity = u.datum.quantity ∧
      (widen u).datum.hiddenSign = u.datum.hiddenSign := by
  rw [widen, Number.convert, Number.datum_ofWord BinaryFormat.roomy_double]
  cases hd : u.datum with
  | nan negative =>
    have hnan : BinaryFormat.double.denote (BinaryFormat.double.encode (.nan negative))
        = .nan negative := BinaryFormat.roomy_double.denote_nanWord negative
    rw [hnan]
    exact ⟨rfl, rfl⟩
  | infinite negative =>
    have hinfinite : BinaryFormat.double.denote (BinaryFormat.double.encode (.infinite negative))
        = .infinite negative := BinaryFormat.denote_infinityWord negative
    rw [hinfinite]
    exact ⟨rfl, rfl⟩
  | finite negative n s =>
    obtain ⟨m, t, hdenote, hvalue⟩ :=
      denote_encode_finite hd (Number.word_lt BinaryFormat.roomy_single u)
    rw [hdenote]
    refine ⟨by simp only [Datum.quantity, hvalue], ?_⟩
    have hzero : m = 0 ↔ n = 0 := by
      have hpow (k : Int) : (2 : ℚ) ^ k ≠ 0 := zpow_ne_zero k two_ne_zero
      rw [← Nat.cast_eq_zero (R := ℚ), ← mul_eq_zero_iff_right (hpow t), hvalue,
        mul_eq_zero_iff_right (hpow s), Nat.cast_eq_zero]
    simp only [Datum.hiddenSign, hzero]

end Conversions

end StreamQuery.Numeric
