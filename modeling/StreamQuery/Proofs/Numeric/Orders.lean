import StreamQuery.Numeric.Conversion
import StreamQuery.Numeric.Shortest
set_option autoImplicit false

/-!
# Orders of magnitude

The decimal order of a number is told from its binary order, and nobody says that it is right; but
it is never so far off that the leading digits of the number were lost.  So the shortest decimal of
a number other than zero has digits other than zero.
-/

namespace StreamQuery.Numeric

variable {num den : Nat}

/-! ## Binary orders -/

/-- The power of two of the binary order is not above the quotient. -/
theorem binaryOrder_le (hnum : 0 < num) :
    den * 2 ^ (binaryOrder num den).toNat ≤ num * 2 ^ (-binaryOrder num den).toNat := by
  have hbelow : 2 ^ num.log2 ≤ num := Nat.log2_self_le (by omega)
  have habove : den ≤ 2 ^ (den.log2 + 1) := Nat.le_of_lt Nat.lt_log2_self
  simp only [binaryOrder]
  split
  · rcases Nat.lt_or_ge den.log2 num.log2 with hlt | hge
    · have hk : ((num.log2 : Int) - den.log2 - 1).toNat = num.log2 - den.log2 - 1 := by omega
      have hk' : (-((num.log2 : Int) - den.log2 - 1)).toNat = 0 := by omega
      rw [hk, hk']
      calc den * 2 ^ (num.log2 - den.log2 - 1)
          ≤ 2 ^ (den.log2 + 1) * 2 ^ (num.log2 - den.log2 - 1) := Nat.mul_le_mul_right _ habove
        _ = 2 ^ num.log2 := by
            rw [← Nat.pow_add]
            congr 1
            omega
        _ ≤ num * 2 ^ 0 := by simpa using hbelow
    · have hk : ((num.log2 : Int) - den.log2 - 1).toNat = 0 := by omega
      have hk' : (-((num.log2 : Int) - den.log2 - 1)).toNat = den.log2 - num.log2 + 1 := by omega
      rw [hk, hk']
      calc den * 2 ^ 0 ≤ 2 ^ (den.log2 + 1) := by simpa using habove
        _ = 2 ^ num.log2 * 2 ^ (den.log2 - num.log2 + 1) := by
            rw [← Nat.pow_add]
            congr 1
            omega
        _ ≤ num * 2 ^ (den.log2 - num.log2 + 1) := Nat.mul_le_mul_right _ hbelow
  · rename_i hnot
    exact Nat.not_lt.1 hnot

/-- The binary order of a quotient of numbers that have few bits. -/
theorem binaryOrder_bounds {n : Nat} (hpos : 0 < n) (hnum : num < 2 ^ n) (hden : den < 2 ^ n) :
    -(n : Int) ≤ binaryOrder num den ∧ binaryOrder num den ≤ n := by
  have hlog {m : Nat} (hm : m < 2 ^ n) : m.log2 < n := by
    by_cases h : m = 0
    · rw [h]
      exact hpos
    · exact (Nat.log2_lt h).2 hm
  have := hlog hnum
  have := hlog hden
  simp only [binaryOrder]
  split <;> omega

/-! ## Decimal orders -/

/-- Thirteen bits fit four decimal digits. -/
theorem two_pow_le (n : Nat) : 2 ^ n ≤ 10 ^ (4 * (n / 13) + 4) := by
  have hrest : 2 ^ (n % 13) ≤ 2 ^ 13 :=
    Nat.pow_le_pow_right (by decide) (Nat.le_of_lt (Nat.mod_lt n (by decide)))
  calc 2 ^ n = (2 ^ 13) ^ (n / 13) * 2 ^ (n % 13) := by
        rw [← Nat.pow_mul, ← Nat.pow_add, Nat.div_add_mod]
    _ ≤ (10 ^ 4) ^ (n / 13) * 10 ^ 4 :=
        Nat.mul_le_mul (Nat.pow_le_pow_left (by decide) _) (Nat.le_trans hrest (by decide))
    _ = 10 ^ (4 * (n / 13) + 4) := by rw [← Nat.pow_mul, ← Nat.pow_add]

/-- Three decimal digits fit ten bits. -/
theorem ten_pow_le (n : Nat) : 10 ^ n ≤ 2 ^ (10 * (n / 3) + 10) := by
  have hrest : 10 ^ (n % 3) ≤ 10 ^ 3 :=
    Nat.pow_le_pow_right (by decide) (Nat.le_of_lt (Nat.mod_lt n (by decide)))
  calc 10 ^ n = (10 ^ 3) ^ (n / 3) * 10 ^ (n % 3) := by
        rw [← Nat.pow_mul, ← Nat.pow_add, Nat.div_add_mod]
    _ ≤ (2 ^ 10) ^ (n / 3) * 2 ^ 10 :=
        Nat.mul_le_mul (Nat.pow_le_pow_left (by decide) _) (Nat.le_trans hrest (by decide))
    _ = 2 ^ (10 * (n / 3) + 10) := by rw [← Nat.pow_mul, ← Nat.pow_add]

/-- A power of ten is not above a quotient. -/
def TenPowLe (num den : Nat) (a : Int) : Prop := den * 10 ^ a.toNat ≤ num * 10 ^ (-a).toNat

/-- A smaller power of ten is not above it either. -/
theorem TenPowLe.mono {a a' : Int} (h : TenPowLe num den a) (ha : a' ≤ a) :
    TenPowLe num den a' :=
  calc den * 10 ^ a'.toNat ≤ den * 10 ^ a.toNat :=
        Nat.mul_le_mul_left _ (Nat.pow_le_pow_right (by decide) (by omega))
    _ ≤ num * 10 ^ (-a).toNat := h
    _ ≤ num * 10 ^ (-a').toNat :=
        Nat.mul_le_mul_left _ (Nat.pow_le_pow_right (by decide) (by omega))

/-- A power of ten is not above a quotient if it is not above a power of two that is not. -/
theorem TenPowLe.of_two_pow {a b : Int}
    (h : 10 ^ a.toNat * 2 ^ (-b).toNat ≤ 10 ^ (-a).toNat * 2 ^ b.toNat)
    (hb : den * 2 ^ b.toNat ≤ num * 2 ^ (-b).toNat) : TenPowLe num den a := by
  apply Nat.le_of_mul_le_mul_right (c := 2 ^ b.toNat * 2 ^ (-b).toNat) ?_
    (Nat.mul_pos (Nat.two_pow_pos _) (Nat.two_pow_pos _))
  calc den * 10 ^ a.toNat * (2 ^ b.toNat * 2 ^ (-b).toNat)
      = den * 2 ^ b.toNat * (10 ^ a.toNat * 2 ^ (-b).toNat) := by ac_rfl
    _ ≤ num * 2 ^ (-b).toNat * (10 ^ (-a).toNat * 2 ^ b.toNat) := Nat.mul_le_mul hb h
    _ = num * 10 ^ (-a).toNat * (2 ^ b.toNat * 2 ^ (-b).toNat) := by ac_rfl

/-- Sixteen digits behind the decimal order something is left of a number. -/
theorem tenPowLe_decimalOrder (hnum : 0 < num) (hlo : -1100 ≤ binaryOrder num den)
    (hhi : binaryOrder num den ≤ 1100) : TenPowLe num den (decimalOrder num den - 16) := by
  have hbinary : den * 2 ^ (binaryOrder num den).toNat ≤ num * 2 ^ (-binaryOrder num den).toNat :=
    binaryOrder_le hnum
  simp only [decimalOrder]
  generalize binaryOrder num den = b at *
  rw [Int.fdiv_eq_ediv_of_nonneg _ (by decide)]
  generalize hk : b * 30103 / 100000 = k
  have hklo : 100000 * k ≤ b * 30103 := by omega
  have hkhi : b * 30103 < 100000 * k + 100000 := by omega
  split
  · rename_i hexact
    exact TenPowLe.mono hexact (by omega)
  · apply TenPowLe.of_two_pow ?_ hbinary
    rcases Int.le_total 0 b with hb | hb
    · have hb' : (-b).toNat = 0 := by omega
      rw [hb', Nat.pow_zero, Nat.mul_one]
      rcases Int.le_total (k - 16) 0 with ha | ha
      · have ha' : (k - 16).toNat = 0 := by omega
        rw [ha', Nat.pow_zero]
        exact Nat.mul_pos (Nat.pow_pos (by decide)) (Nat.two_pow_pos _)
      · calc 10 ^ (k - 16).toNat ≤ 2 ^ (10 * ((k - 16).toNat / 3) + 10) := ten_pow_le _
          _ ≤ 2 ^ b.toNat := Nat.pow_le_pow_right (by decide) (by omega)
          _ ≤ 10 ^ (-(k - 16)).toNat * 2 ^ b.toNat :=
              Nat.le_mul_of_pos_left _ (Nat.pow_pos (by decide))
    · have hb' : b.toNat = 0 := by omega
      have ha' : (k - 16).toNat = 0 := by omega
      rw [hb', ha', Nat.pow_zero, Nat.pow_zero, Nat.one_mul, Nat.mul_one]
      calc 2 ^ (-b).toNat ≤ 10 ^ (4 * ((-b).toNat / 13) + 4) := two_pow_le _
        _ ≤ 10 ^ (-(k - 16)).toNat := Nat.pow_le_pow_right (by decide) (by omega)

/-! ## Shortest decimals -/

theorem Decimal.digits_trimZeros {d : Decimal} (h : 0 < d.digits) : 0 < d.trimZeros.digits := by
  fun_induction Decimal.trimZeros d with
  | case1 d hzeros ih =>
    apply ih
    have hpos : 10 ≤ d.digits := Nat.le_of_dvd h (Nat.dvd_of_mod_eq_zero hzeros.2)
    exact Nat.div_pos hpos (by decide)
  | case2 d => exact h

/-- A decimal of a number other than zero that reads back has digits. -/
theorem digits_of_decimalOnGrid? {f : BinaryFormat} {tie : DecimalTie} {word : Nat} {unit : Int}
    {d : Decimal} (hword : word ≠ 0) (h : decimalOnGrid? f tie num den word unit = some d) :
    0 < d.digits := by
  have hlower : ∀ below : Nat, ((⟨below, unit⟩ : Decimal).word f == word) = true → 0 < below := by
    intro below hreads
    rcases Nat.eq_zero_or_pos below with rfl | hpos
    · have hzero : (⟨0, unit⟩ : Decimal).word f = 0 := by
        rw [Decimal.word, Decimal.ratio, Nat.zero_mul]
        exact f.nearestMagnitude_zero _
      rw [hzero, beq_iff_eq] at hreads
      exact absurd hreads.symm hword
    · exact hpos
  simp only [decimalOnGrid?] at h
  split at h
  · cases h
  · rename_i hreads _
    cases h
    exact hlower _ hreads
  · cases h
    exact Nat.succ_pos _
  · rename_i hreads _
    have hpos := hlower _ hreads
    split at h
    · cases h
      exact hpos
    · split at h
      · cases h
        exact Nat.succ_pos _
      · split at h
        · cases h
          exact Nat.succ_pos _
        · cases h
          split
          · exact hpos
          · exact Nat.succ_pos _

/-- The shortest decimal of a number other than zero has digits other than zero. -/
theorem digits_shortestDecimal {f : BinaryFormat} {tie : DecimalTie} {word : Nat}
    (hword : word ≠ 0) (hnum : 0 < num) (hden : 0 < den) (hlo : -1100 ≤ binaryOrder num den)
    (hhi : binaryOrder num den ≤ 1100) : 0 < (shortestDecimal f tie num den word).digits := by
  apply Decimal.digits_trimZeros
  cases hgrids : ((List.range 17).map fun (n : Nat) => decimalOrder num den - n).findSome?
      (decimalOnGrid? f tie num den word) with
  | some d =>
    obtain ⟨unit, -, hd⟩ := List.exists_of_findSome?_eq_some hgrids
    exact digits_of_decimalOnGrid? hword hd
  | none =>
    have horder := tenPowLe_decimalOrder hnum hlo hhi
    have hneg : -(decimalOrder num den - 16) = 16 - decimalOrder num den := by omega
    rw [TenPowLe, hneg] at horder
    exact Nat.div_pos horder (Nat.mul_pos hden (Nat.pow_pos (by decide)))

/-! ## Numbers of a format -/

/-- A format whose numbers, as quotients, have a numerator and a denominator of few bits. -/
def BinaryFormat.Moderate (f : BinaryFormat) : Prop :=
  f.fractionBits + (f.minScale + 2 ^ f.exponentBits).toNat < 1100 ∧ -f.minScale < 1100

theorem moderate_double : BinaryFormat.double.Moderate := ⟨by decide, by decide⟩

theorem moderate_single : BinaryFormat.single.Moderate := ⟨by decide, by decide⟩

/-- The significand and the scale of a finite number. -/
theorem BinaryFormat.denote_finite {f : BinaryFormat} {word significand : Nat} {negative : Bool}
    {scale : Int} (h : f.denote word = .finite negative significand scale) :
    significand < 2 ^ (f.fractionBits + 1) ∧ f.minScale ≤ scale ∧
      scale < f.minScale + 2 ^ f.exponentBits ∧ (significand ≠ 0 → word % f.signWeight ≠ 0) := by
  have hfraction : word % f.signWeight % 2 ^ f.fractionBits < 2 ^ f.fractionBits :=
    Nat.mod_lt _ (Nat.two_pow_pos _)
  have hpow : 2 ^ (f.fractionBits + 1) = 2 ^ f.fractionBits + 2 ^ f.fractionBits := by
    rw [Nat.pow_succ]
    omega
  have hexponent : word % f.signWeight / 2 ^ f.fractionBits < 2 ^ f.exponentBits := by
    rw [Nat.div_lt_iff_lt_mul (Nat.two_pow_pos _), ← Nat.pow_add]
    exact Nat.mod_lt _ (Nat.two_pow_pos _)
  have hcast : ((2 ^ f.exponentBits : Nat) : Int) = 2 ^ f.exponentBits := by push_cast; rfl
  simp only [denote] at h
  split at h
  · split at h <;> cases h
  · split at h
    · rename_i hzero
      cases h
      refine ⟨by omega, Int.le_refl _, by omega, fun hne hword => hne ?_⟩
      rw [hword, Nat.zero_mod]
    · rename_i hnonzero
      cases h
      have hword : word % f.signWeight ≠ 0 := by
        intro hword
        rw [hword, Nat.zero_div] at hnonzero
        exact hnonzero rfl
      generalize word % f.signWeight / 2 ^ f.fractionBits = exponent at *
      exact ⟨by omega, by omega, by omega, fun _ => hword⟩

/-- The decimal that a finite number other than zero is written by has digits other than zero. -/
theorem BinaryFormat.digits_shortestDecimal {f : BinaryFormat} (hf : f.Moderate)
    {word significand : Nat} {negative : Bool} {scale : Int}
    (h : f.denote word = .finite negative significand scale) (hne : significand ≠ 0)
    (tie : DecimalTie) :
    0 < (shortestDecimal f tie (significand * 2 ^ scale.toNat) (2 ^ (-scale).toNat)
      (word % f.signWeight)).digits := by
  obtain ⟨hsignificand, hlo, hhi, hword⟩ := denote_finite h
  obtain ⟨hlarge, hsmall⟩ := hf
  have hbits : f.fractionBits + 1 + scale.toNat ≤ 1100 := by omega
  have hbits' : (-scale).toNat < 1100 := by omega
  have hpos : 0 < significand * 2 ^ scale.toNat :=
    Nat.mul_pos (Nat.pos_of_ne_zero hne) (Nat.two_pow_pos _)
  have horders {n : Nat} (hnum : f.fractionBits + 1 + scale.toNat ≤ n)
      (hden : (-scale).toNat < n) :
      -(n : Int) ≤ binaryOrder (significand * 2 ^ scale.toNat) (2 ^ (-scale).toNat) ∧
        binaryOrder (significand * 2 ^ scale.toNat) (2 ^ (-scale).toNat) ≤ n := by
    refine binaryOrder_bounds (by omega) ?_ (Nat.pow_lt_pow_right (by decide) hden)
    calc significand * 2 ^ scale.toNat
        < 2 ^ (f.fractionBits + 1) * 2 ^ scale.toNat :=
          Nat.mul_lt_mul_of_pos_right hsignificand (Nat.two_pow_pos _)
      _ = 2 ^ (f.fractionBits + 1 + scale.toNat) := (Nat.pow_add _ _ _).symm
      _ ≤ 2 ^ n := Nat.pow_le_pow_right (by decide) hnum
  obtain ⟨horder, horder'⟩ := horders hbits hbits'
  exact Numeric.digits_shortestDecimal (hword hne) hpos (Nat.two_pow_pos _) horder horder'

end StreamQuery.Numeric
