import Mathlib
import StreamQuery.Numeric.Conversion
set_option autoImplicit false

/-!
# Words and the numbers that they denote

A word of a binary format denotes a number, and a number other than zero has at most one word
(`BinaryFormat.eq_of_quantity_eq`): the significand uses all its digits unless the scale is the
smallest one.  The two zeros are told apart by their sign, and so are the two words that are in use
for what is no number (`BinaryFormat.Number.eq_iff`).
-/

namespace StreamQuery.Numeric

/-! ## Quantities -/

/-- What is denoted, apart from how it is written. -/
inductive Quantity where
  | nan
  | infinite (negative : Bool)
  | finite (q : ℚ)
  deriving DecidableEq

/-- A magnitude with its sign. -/
def signed (negative : Bool) (q : ℚ) : ℚ := if negative then -q else q

theorem signed_eq_zero (negative : Bool) {q : ℚ} : signed negative q = 0 ↔ q = 0 := by
  cases negative <;> simp [signed]

theorem abs_signed (negative : Bool) {q : ℚ} (h : 0 ≤ q) : |signed negative q| = q := by
  cases negative
  · exact abs_of_nonneg h
  · exact (abs_neg q).trans (abs_of_nonneg h)

theorem signed_natCast (negative : Bool) (n : Nat) :
    signed negative n = ((if negative then -(n : Int) else n : Int) : ℚ) := by
  cases negative <;> simp [signed]

/-- Positive magnitudes and their signs are told apart. -/
theorem signed_inj {negative negative' : Bool} {p q : ℚ} (hp : 0 < p) (hq : 0 < q)
    (h : signed negative p = signed negative' q) : negative = negative' ∧ p = q := by
  cases negative <;> cases negative' <;> simp only [signed] at h
  · exact ⟨rfl, h⟩
  · simp at h
    linarith
  · simp at h
    linarith
  · exact ⟨rfl, neg_inj.1 h⟩

namespace Datum

/-- The quantity that is denoted; the two zeros denote one, and so does all that is no number. -/
def quantity : Datum → Quantity
  | .nan _ => .nan
  | .infinite negative => .infinite negative
  | .finite negative significand scale => .finite (signed negative (significand * 2 ^ scale))

theorem quantity_eq_nan_iff {d : Datum} : d.quantity = .nan ↔ d.isNaN = true := by
  cases d <;> simp [quantity, isNaN]

/-- The sign that the quantity does not tell: that of a zero, and that of what is no number. -/
def hiddenSign : Datum → Bool
  | .nan negative => negative
  | .infinite _ => false
  | .finite negative significand _ => negative && decide (significand = 0)

theorem quantity_of_hiddenSign {d : Datum} (h : d.hiddenSign = true) :
    d.quantity = .finite 0 ∨ d.quantity = .nan := by
  cases d with
  | nan negative => exact .inr rfl
  | infinite negative => cases h
  | finite negative significand scale =>
    rw [hiddenSign, Bool.and_eq_true, decide_eq_true_eq] at h
    left
    simp [quantity, signed, h.2]

end Datum

/-! ## Significands and scales -/

namespace BinaryFormat

variable {f : BinaryFormat} {negative : Bool} {significand n m : Nat} {scale s t : Int}

/-- A significand and a scale as words have them: the significand uses all digits unless the scale
is the smallest one. -/
structure Normal (f : BinaryFormat) (significand : Nat) (scale : Int) : Prop where
  lt : significand < 2 ^ (f.fractionBits + 1)
  minScale_le : f.minScale ≤ scale
  scale_lt : (scale - f.minScale).toNat + 2 < 2 ^ f.exponentBits
  full : f.minScale < scale → 2 ^ f.fractionBits ≤ significand

/-- The word of a sign, a significand and a scale. -/
def assemble (f : BinaryFormat) (negative : Bool) (significand : Nat) (scale : Int) : Nat :=
  f.signWord negative + (significand + (scale - f.minScale).toNat * 2 ^ f.fractionBits)

/-- Numbers of units are told apart by significand and scale. -/
theorem Normal.unique (hn : f.Normal n s) (hm : f.Normal m t)
    (h : (n : ℚ) * 2 ^ s = m * 2 ^ t) : n = m ∧ s = t := by
  -- with the smaller scale the significand would have a digit too many
  have hscale {n m : Nat} {s t : Int} (hn : f.Normal n s) (hm : f.Normal m t)
      (h : (n : ℚ) * 2 ^ s = m * 2 ^ t) : t ≤ s := by
    by_contra hlt
    have hshift : (2 : ℚ) ^ t = 2 ^ (t - s).toNat * 2 ^ s := by
      rw [← zpow_natCast, ← zpow_add₀ two_ne_zero]
      congr 1
      omega
    rw [hshift, ← mul_assoc] at h
    have hnat : n = m * 2 ^ (t - s).toNat := by
      exact_mod_cast mul_right_cancel₀ (zpow_ne_zero s two_ne_zero) h
    have hfull : 2 ^ f.fractionBits ≤ m := hm.full (by have := hn.minScale_le; omega)
    have htwo : 2 ^ 1 ≤ 2 ^ (t - s).toNat := Nat.pow_le_pow_right (by decide) (by omega)
    have hlarge := Nat.mul_le_mul hfull htwo
    have := hn.lt
    rw [Nat.pow_succ] at this
    omega
  have hst : s = t := le_antisymm (hscale hm hn h.symm) (hscale hn hm h)
  subst hst
  exact ⟨by exact_mod_cast mul_right_cancel₀ (zpow_ne_zero s two_ne_zero) h, rfl⟩

theorem signWord_div (f : BinaryFormat) (negative : Bool) {magnitude : Nat}
    (h : magnitude < f.signWeight) :
    (f.signWord negative + magnitude) / f.signWeight % 2 = negative.toNat ∧
      (f.signWord negative + magnitude) % f.signWeight = magnitude := by
  have hpos : 0 < f.signWeight := Nat.two_pow_pos _
  cases negative with
  | false =>
    simp only [signWord, Bool.false_eq_true, if_false, Nat.zero_add]
    rw [Nat.div_eq_of_lt h, Nat.mod_eq_of_lt h]
    exact ⟨rfl, rfl⟩
  | true =>
    simp only [signWord, if_true]
    rw [Nat.add_div_left _ hpos, Nat.div_eq_of_lt h, Nat.add_mod_left, Nat.mod_eq_of_lt h]
    exact ⟨rfl, rfl⟩

/-- The magnitude of a word stays below the weight of the sign. -/
theorem Normal.magnitude_lt (h : f.Normal n s) :
    n + (s - f.minScale).toNat * 2 ^ f.fractionBits < f.infinityWord := by
  have hlt := h.lt
  have hscale := h.scale_lt
  have hfactor : ((s - f.minScale).toNat + 2) * 2 ^ f.fractionBits
      ≤ (2 ^ f.exponentBits - 1) * 2 ^ f.fractionBits := Nat.mul_le_mul_right _ (by omega)
  rw [Nat.add_mul] at hfactor
  rw [Nat.pow_succ] at hlt
  rw [infinityWord]
  omega

theorem infinityWord_lt (f : BinaryFormat) : f.infinityWord < f.signWeight := by
  rw [infinityWord, signWeight, Nat.pow_add]
  exact Nat.mul_lt_mul_of_pos_right (Nat.sub_lt (Nat.two_pow_pos _) Nat.one_pos)
    (Nat.two_pow_pos _)

/-- A word that was put together denotes what it was made of. -/
theorem Normal.denote_assemble (h : f.Normal n s) :
    f.denote (f.assemble negative n s) = .finite negative n s := by
  have hpos : 0 < 2 ^ f.fractionBits := Nat.two_pow_pos _
  have hlt : n < 2 ^ f.fractionBits * 2 := by
    have := h.lt
    rwa [Nat.pow_succ] at this
  have hscale := h.scale_lt
  have hmin := h.minScale_le
  obtain ⟨hsign, hmagnitude⟩ := f.signWord_div negative
    (Nat.lt_trans h.magnitude_lt f.infinityWord_lt)
  have hnegative : (negative.toNat == 1) = negative := by cases negative <;> rfl
  simp only [BinaryFormat.denote, assemble, hsign, hmagnitude, hnegative]
  generalize hexponent : (s - f.minScale).toNat = exponent at *
  rcases Nat.lt_or_ge n (2 ^ f.fractionBits) with hsmall | hfull
  · have hzero : exponent = 0 := by
      by_contra hne
      have := h.full (by omega)
      omega
    subst hzero
    rw [Nat.zero_mul, Nat.add_zero, Nat.div_eq_of_lt hsmall, Nat.mod_eq_of_lt hsmall,
      if_neg (by omega), if_pos rfl]
    congr 1
    omega
  · obtain ⟨fraction, rfl⟩ : ∃ fraction, n = fraction + 2 ^ f.fractionBits :=
      ⟨n - 2 ^ f.fractionBits, by omega⟩
    have hword : fraction + 2 ^ f.fractionBits + exponent * 2 ^ f.fractionBits
        = fraction + (exponent + 1) * 2 ^ f.fractionBits := by
      rw [Nat.add_mul]
      omega
    rw [hword, Nat.add_mul_div_right _ _ hpos, Nat.add_mul_mod_self_right,
      Nat.div_eq_of_lt (by omega), Nat.mod_eq_of_lt (by omega), if_neg (by omega),
      if_neg (by omega)]
    congr 1
    · omega
    · omega

theorem signWord_add_lt (f : BinaryFormat) (negative : Bool) {magnitude : Nat}
    (h : magnitude < f.signWeight) : f.signWord negative + magnitude < 2 * f.signWeight := by
  cases negative
  · show 0 + _ < _
    omega
  · show f.signWeight + _ < _
    omega

theorem Normal.assemble_lt (h : f.Normal n s) (negative : Bool) :
    f.assemble negative n s < 2 * f.signWeight :=
  f.signWord_add_lt negative (h.magnitude_lt.trans f.infinityWord_lt)

/-- A word is its sign and its magnitude. -/
theorem signWord_add_mod {word : Nat} (hword : word < 2 * f.signWeight) :
    f.signWord (word / f.signWeight % 2 == 1) + word % f.signWeight = word := by
  have hpos : 0 < f.signWeight := Nat.two_pow_pos _
  have hdiv := Nat.div_add_mod word f.signWeight
  have hquotient : word / f.signWeight < 2 := (Nat.div_lt_iff_lt_mul hpos).2 hword
  generalize word / f.signWeight = quotient at *
  obtain rfl | rfl : quotient = 0 ∨ quotient = 1 := by omega
  · show 0 + _ = _
    omega
  · show f.signWeight + _ = _
    omega

/-- A word that denotes a number is put together of its sign, significand and scale. -/
theorem normal_of_denote {word : Nat} (hf : 2 ≤ f.exponentBits)
    (h : f.denote word = .finite negative n s) (hword : word < 2 * f.signWeight) :
    f.Normal n s ∧ word = f.assemble negative n s := by
  have hparts := signWord_add_mod hword
  have hdigits := Nat.div_add_mod (word % f.signWeight) (2 ^ f.fractionBits)
  have hfraction : word % f.signWeight % 2 ^ f.fractionBits < 2 ^ f.fractionBits :=
    Nat.mod_lt _ (Nat.two_pow_pos _)
  have hexponent : word % f.signWeight / 2 ^ f.fractionBits < 2 ^ f.exponentBits := by
    rw [Nat.div_lt_iff_lt_mul (Nat.two_pow_pos _), ← Nat.pow_add]
    exact Nat.mod_lt _ (Nat.two_pow_pos _)
  have hfour : 2 ^ 2 ≤ 2 ^ f.exponentBits := Nat.pow_le_pow_right (by decide) hf
  have hdouble : 2 ^ (f.fractionBits + 1) = 2 ^ f.fractionBits * 2 := Nat.pow_succ ..
  simp only [BinaryFormat.denote] at h
  rw [Nat.mul_comm] at hdigits
  generalize word % f.signWeight % 2 ^ f.fractionBits = fraction at *
  generalize word % f.signWeight / 2 ^ f.fractionBits = exponent at *
  split at h
  · split at h <;> cases h
  · split at h
    · rename_i hzero
      cases h
      have hscale : (f.minScale - f.minScale).toNat = 0 := by omega
      rw [hzero, Nat.zero_mul, Nat.zero_add] at hdigits
      refine ⟨⟨by omega, Int.le_refl _, by omega, fun hlt => by omega⟩, ?_⟩
      rw [assemble, hscale, Nat.zero_mul, Nat.add_zero, hdigits, hparts]
    · rename_i hinfinite hzero
      cases h
      have hscale : (f.minScale + ((exponent : Int) - 1) - f.minScale).toNat = exponent - 1 := by
        omega
      refine ⟨⟨by omega, by omega, by omega, fun _ => by omega⟩, ?_⟩
      have hmagnitude : 2 ^ f.fractionBits + fraction + (exponent - 1) * 2 ^ f.fractionBits
          = word % f.signWeight := by
        rw [← hdigits, Nat.sub_mul]
        have : 1 * 2 ^ f.fractionBits ≤ exponent * 2 ^ f.fractionBits :=
          Nat.mul_le_mul_right _ (by omega)
        omega
      rw [assemble, hscale, hmagnitude, hparts]

theorem infinite_of_denote {word : Nat} (h : f.denote word = .infinite negative)
    (hword : word < 2 * f.signWeight) : word = f.signWord negative + f.infinityWord := by
  have hparts := signWord_add_mod hword
  have hdigits := Nat.div_add_mod (word % f.signWeight) (2 ^ f.fractionBits)
  simp only [BinaryFormat.denote] at h
  split at h
  · rename_i hexponent
    split at h
    · rename_i hfraction
      cases h
      rw [hexponent, hfraction, Nat.add_zero, Nat.mul_comm] at hdigits
      rw [infinityWord, hdigits, hparts]
    · cases h
  · split at h <;> cases h

/-- A zero has the smallest scale. -/
theorem Normal.eq_minScale (h : f.Normal 0 s) : s = f.minScale := by
  by_contra hne
  have hfull := h.full (by have := h.minScale_le; omega)
  have : 0 < 2 ^ f.fractionBits := Nat.two_pow_pos _
  omega

/-- Numbers with their signs are told apart by sign, significand and scale. -/
theorem Normal.signed_unique {negative' : Bool} (hn : f.Normal n s) (hm : f.Normal m t)
    (h : signed negative (n * 2 ^ s) = signed negative' (m * 2 ^ t))
    (hzero : n = 0 → m = 0 → negative = negative') : negative = negative' ∧ n = m ∧ s = t := by
  have hpow (k : Int) : (0 : ℚ) < 2 ^ k := zpow_pos two_pos k
  have hzero_iff : n = 0 ↔ m = 0 := by
    have hn0 := signed_eq_zero negative (q := n * 2 ^ s)
    have hm0 := signed_eq_zero negative' (q := m * 2 ^ t)
    rw [mul_eq_zero_iff_right (hpow s).ne', Nat.cast_eq_zero] at hn0
    rw [mul_eq_zero_iff_right (hpow t).ne', Nat.cast_eq_zero] at hm0
    rw [← hn0, ← hm0, h]
  rcases Nat.eq_zero_or_pos n with rfl | hpos
  · obtain rfl := hzero_iff.1 rfl
    exact ⟨hzero rfl rfl, rfl, hn.eq_minScale.trans hm.eq_minScale.symm⟩
  · have hpos' : 0 < m := Nat.pos_of_ne_zero fun hm0 => hpos.ne' (hzero_iff.2 hm0)
    obtain ⟨hsign, hmagnitude⟩ := signed_inj (mul_pos (Nat.cast_pos.2 hpos) (hpow s))
      (mul_pos (Nat.cast_pos.2 hpos') (hpow t)) h
    exact ⟨hsign, hn.unique hm hmagnitude⟩

/-- No number is denoted by the largest exponent with a fraction. -/
theorem isNaN_denote_iff {word : Nat} : (f.denote word).isNaN = true ↔
    word % f.signWeight / 2 ^ f.fractionBits = 2 ^ f.exponentBits - 1 ∧
      word % f.signWeight % 2 ^ f.fractionBits ≠ 0 := by
  simp only [denote]
  split
  · rename_i hexponent
    split
    · rename_i hfraction
      exact ⟨nofun, fun h => absurd hfraction h.2⟩
    · rename_i hfraction
      exact ⟨fun _ => ⟨hexponent, hfraction⟩, fun _ => rfl⟩
  · rename_i hexponent
    split <;> exact ⟨nofun, fun h => absurd h.1 hexponent⟩

/-- What is denoted tells the word, up to the sign of zero and to the words of what is no number. -/
theorem eq_of_quantity_eq {word word' : Nat} (hf : 2 ≤ f.exponentBits)
    (hword : word < 2 * f.signWeight) (hword' : word' < 2 * f.signWeight)
    (h : (f.denote word).quantity = (f.denote word').quantity)
    (hnan : (f.denote word).isNaN = false)
    (hsign : (f.denote word).hiddenSign = (f.denote word').hiddenSign) : word = word' := by
  cases hd : f.denote word with
  | nan negative =>
    rw [hd] at hnan
    cases hnan
  | infinite negative =>
    cases hd' : f.denote word' <;> rw [hd, hd'] at h <;> cases h
    rw [infinite_of_denote hd hword, infinite_of_denote hd' hword']
  | finite negative n s =>
    cases hd' : f.denote word' with
    | nan negative' => simp [hd, hd', Datum.quantity] at h
    | infinite negative' => simp [hd, hd', Datum.quantity] at h
    | finite negative' m t =>
      rw [hd, hd'] at h hsign
      obtain ⟨hn, rfl⟩ := normal_of_denote hf hd hword
      obtain ⟨hm, rfl⟩ := normal_of_denote hf hd' hword'
      obtain ⟨rfl, rfl, rfl⟩ := hn.signed_unique hm (Quantity.finite.inj h) fun hn0 hm0 => by
        subst hn0 hm0
        simpa [Datum.hiddenSign] using hsign
      rfl

/-! ## Words in use -/

/-- A format with some digits, and exponents besides the first and the last one. -/
structure Roomy (f : BinaryFormat) : Prop where
  exponents : 2 ≤ f.exponentBits
  digits : 0 < f.fractionBits

theorem roomy_double : double.Roomy := ⟨by decide, by decide⟩

theorem roomy_single : single.Roomy := ⟨by decide, by decide⟩

theorem infinityWord_lt_nanWord (f : BinaryFormat) : f.infinityWord < f.nanWord :=
  Nat.lt_add_of_pos_right (Nat.two_pow_pos _)

/-- The word of what is no number is a magnitude. -/
theorem Roomy.nanWord_lt (hf : f.Roomy) : f.nanWord < f.signWeight := by
  have hpos := Nat.two_pow_pos f.exponentBits
  have hdigits := hf.digits
  have hhalf : 2 ^ (f.fractionBits - 1) < 2 ^ f.fractionBits :=
    Nat.pow_lt_pow_right (by decide) (by omega)
  rw [nanWord, infinityWord, signWeight, Nat.pow_add]
  calc (2 ^ f.exponentBits - 1) * 2 ^ f.fractionBits + 2 ^ (f.fractionBits - 1)
      < (2 ^ f.exponentBits - 1) * 2 ^ f.fractionBits + 2 ^ f.fractionBits := by omega
    _ = 2 ^ f.exponentBits * 2 ^ f.fractionBits := by
        rw [← Nat.succ_mul]
        congr 1
        omega

theorem denote_infinityWord (negative : Bool) :
    f.denote (f.signWord negative + f.infinityWord) = .infinite negative := by
  obtain ⟨hsign, hmagnitude⟩ := f.signWord_div negative f.infinityWord_lt
  have hnegative : (negative.toNat == 1) = negative := by cases negative <;> rfl
  have hexponent : f.infinityWord / 2 ^ f.fractionBits = 2 ^ f.exponentBits - 1 :=
    Nat.mul_div_cancel _ (Nat.two_pow_pos _)
  have hfraction : f.infinityWord % 2 ^ f.fractionBits = 0 := Nat.mul_mod_left _ _
  simp only [denote, hsign, hmagnitude, hnegative, hexponent, hfraction, if_true]

theorem denote_of_infinityWord_lt {w : Nat} (hw : f.infinityWord < w) (hlt : w < f.signWeight) :
    f.denote (f.signWord negative + w) = .nan negative := by
  obtain ⟨hsign, hmagnitude⟩ := f.signWord_div negative hlt
  have hnegative : (negative.toNat == 1) = negative := by cases negative <;> rfl
  have hdiv := Nat.div_add_mod w (2 ^ f.fractionBits)
  have hexponent : w / 2 ^ f.fractionBits = 2 ^ f.exponentBits - 1 := by
    refine Nat.le_antisymm (Nat.le_sub_one_of_lt ?_) ?_
    · rwa [Nat.div_lt_iff_lt_mul (Nat.two_pow_pos _), ← Nat.pow_add]
    · exact (Nat.le_div_iff_mul_le (Nat.two_pow_pos _)).2 hw.le
  have hfraction : w % 2 ^ f.fractionBits ≠ 0 := by
    intro hzero
    rw [hexponent, hzero, Nat.mul_comm, Nat.add_zero] at hdiv
    exact hw.ne hdiv
  simp only [denote, hsign, hmagnitude, hnegative, hexponent, hfraction, if_true, if_false]

theorem Roomy.denote_nanWord (hf : f.Roomy) (negative : Bool) :
    f.denote (f.signWord negative + f.nanWord) = .nan negative :=
  denote_of_infinityWord_lt f.infinityWord_lt_nanWord hf.nanWord_lt

/-- Magnitudes up to infinity denote numbers and infinities. -/
theorem isNaN_denote_of_le {w : Nat} (hw : w ≤ f.infinityWord) :
    (f.denote (f.signWord negative + w)).isNaN = false := by
  rw [← Bool.not_eq_true, isNaN_denote_iff,
    (f.signWord_div negative (hw.trans_lt f.infinityWord_lt)).2]
  rintro ⟨hexponent, hfraction⟩
  have hdiv := Nat.div_add_mod w (2 ^ f.fractionBits)
  rw [hexponent, Nat.mul_comm] at hdiv
  rw [infinityWord] at hw
  omega

namespace Proper

variable {word word' : Nat}

/-- No magnitude in use is beyond that of what is no number. -/
theorem exists_magnitude (h : f.Proper word) :
    ∃ negative w, w ≤ f.nanWord ∧ word = f.signWord negative + w := by
  cases h with
  | @finite negative w hw => exact ⟨negative, w, (hw.trans f.infinityWord_lt_nanWord).le, rfl⟩
  | infinite negative => exact ⟨negative, _, f.infinityWord_lt_nanWord.le, rfl⟩
  | nan negative => exact ⟨negative, _, le_rfl, rfl⟩

theorem lt (hf : f.Roomy) (h : f.Proper word) : word < 2 * f.signWeight := by
  obtain ⟨negative, w, hw, rfl⟩ := h.exists_magnitude
  exact f.signWord_add_lt negative (hw.trans_lt hf.nanWord_lt)

/-- What is no number has one word for each sign. -/
theorem eq_of_isNaN (hf : f.Roomy) (h : f.Proper word) (hnan : (f.denote word).isNaN = true) :
    word = f.signWord (f.denote word).hiddenSign + f.nanWord := by
  cases h with
  | finite negative hw => exact nomatch hnan.symm.trans (isNaN_denote_of_le hw.le)
  | infinite negative => exact nomatch hnan.symm.trans (isNaN_denote_of_le le_rfl)
  | nan negative => rw [hf.denote_nanWord negative, Datum.hiddenSign]

/-- Words in use are told apart by what they denote and by the sign that is hidden in it. -/
theorem eq_iff (hf : f.Roomy) (h : f.Proper word) (h' : f.Proper word') :
    word = word' ↔ (f.denote word).quantity = (f.denote word').quantity ∧
      (f.denote word).hiddenSign = (f.denote word').hiddenSign := by
  refine ⟨fun h => h ▸ ⟨rfl, rfl⟩, fun ⟨hquantity, hsign⟩ => ?_⟩
  cases hnan : (f.denote word).isNaN with
  | true =>
    have hnan' : (f.denote word').isNaN = true := by
      rw [← Datum.quantity_eq_nan_iff, ← hquantity, Datum.quantity_eq_nan_iff, hnan]
    rw [h.eq_of_isNaN hf hnan, h'.eq_of_isNaN hf hnan', hsign]
  | false => exact eq_of_quantity_eq hf.exponents (h.lt hf) (h'.lt hf) hquantity hnan hsign

end Proper

/-! ## Numbers -/

namespace Number

variable {x y : f.Number}

theorem word_inj : x.word = y.word ↔ x = y := by
  cases x
  cases y
  simp

theorem key_inj : x.key = y.key ↔ x = y :=
  ⟨fun h => word_inj.1 (f.orderKey_injective h), fun h => h ▸ rfl⟩

variable (hf : f.Roomy)
include hf

theorem word_lt (x : f.Number) : x.word < 2 * f.signWeight := x.proper.lt hf

/-- A number is what it denotes, with the sign that is hidden in it. -/
theorem eq_iff : x = y ↔ x.datum.quantity = y.datum.quantity ∧
    x.datum.hiddenSign = y.datum.hiddenSign :=
  word_inj.symm.trans (x.proper.eq_iff hf y.proper)

/-- The number of a word denotes what the word does. -/
theorem datum_ofWord (word : Nat) : (ofWord f word).datum = f.denote word := by
  have hlt : word % f.signWeight < f.signWeight := Nat.mod_lt _ (Nat.two_pow_pos _)
  have hkept : f.denote (f.signWord (word / f.signWeight % 2 == 1) + word % f.signWeight)
      = f.denote word := by
    obtain ⟨hsign, hmagnitude⟩ := f.signWord_div (word / f.signWeight % 2 == 1) hlt
    have hnegative : ((word / f.signWeight % 2 == 1).toNat == 1)
        = (word / f.signWeight % 2 == 1) := by
      cases (word / f.signWeight % 2 == 1) <;> rfl
    simp only [denote, hsign, hmagnitude, hnegative]
  rw [← hkept]
  simp only [ofWord, datum]
  split
  · rfl
  · split
    · rename_i hinfinite
      rw [hinfinite]
    · rename_i hless hinfinite
      rw [nan, hf.denote_nanWord, denote_of_infinityWord_lt (by omega) hlt]

/-- The number of a word has that word, unless that is one of what is no number. -/
theorem word_ofWord {word : Nat} (hword : word < 2 * f.signWeight)
    (hnan : (f.denote word).isNaN = false) : (ofWord f word).word = word := by
  have hdatum : f.denote (ofWord f word).word = f.denote word := datum_ofWord hf word
  refine eq_of_quantity_eq hf.exponents (word_lt hf _) hword ?_ ?_ ?_ <;> rw [hdatum]
  exact hnan

theorem ofWord_word (x : f.Number) : ofWord f x.word = x := by
  rw [eq_iff hf, datum_ofWord hf, datum]
  exact ⟨rfl, rfl⟩

/-- Negation keeps the magnitude of a word and turns its sign, also of what is no number. -/
theorem exists_word_neg (x : f.Number) : ∃ negative w, w < f.signWeight ∧
    x.word = f.signWord negative + w ∧ (-x).word = f.signWord (!negative) + w := by
  have hturn {negative : Bool} {w : Nat} (hw : w < f.signWeight)
      (hword : x.word = f.signWord negative + w)
      (hproper : f.Proper (f.signWord (!negative) + w)) :
      (-x).word = f.signWord (!negative) + w := by
    have hturned : (if x.word < f.signWeight then x.word + f.signWeight
        else x.word - f.signWeight) = f.signWord (!negative) + w := by
      rw [hword]
      cases negative
      · simp only [signWord, Bool.not_false, Bool.false_eq_true, if_false, if_true]
        rw [if_pos (by omega)]
        omega
      · simp only [signWord, Bool.not_true, Bool.false_eq_true, if_false, if_true]
        rw [if_neg (by omega)]
        omega
    show (ofWord f _).word = _
    rw [hturned]
    exact congrArg word (ofWord_word hf ⟨_, hproper⟩)
  have hproper := x.proper
  generalize hword : x.word = word at hproper
  cases hproper with
  | @finite negative w hw =>
    exact ⟨negative, w, hw.trans f.infinityWord_lt, rfl,
      hturn (hw.trans f.infinityWord_lt) hword (.finite _ hw)⟩
  | infinite negative =>
    exact ⟨negative, _, f.infinityWord_lt, rfl, hturn f.infinityWord_lt hword (.infinite _)⟩
  | nan negative => exact ⟨negative, _, hf.nanWord_lt, rfl, hturn hf.nanWord_lt hword (.nan _)⟩

end Number

end BinaryFormat

end StreamQuery.Numeric
