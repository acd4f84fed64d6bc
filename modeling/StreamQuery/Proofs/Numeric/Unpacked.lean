import Mathlib
import StreamQuery.Proofs.Numeric.Places
set_option autoImplicit false

/-!
# Unpacked numbers

The core library computes on unpacked numbers.  What a word is unpacked to is what it denotes
(`BinaryFormat.unpack_eq_unpacked`), and what it denotes is packed to the word again, unless it is
no number (`BinaryFormat.pack_unpacked`): the core library has neither signs nor payloads for that.
-/

namespace StreamQuery.Numeric

open Float.Model (Format UnpackedFloat)
open Float.Model.UnpackedFloat (Sign)

/-- The sign of the core library. -/
def signOf (negative : Bool) : Sign := if negative then .negative else .positive

theorem signOf_div (negative negative' : Bool) :
    signOf negative / signOf negative' = signOf (negative ^^ negative') := by
  cases negative <;> cases negative' <;> rfl

/-- What is denoted as an unpacked number. -/
def Datum.unpacked : Datum → UnpackedFloat
  | .nan _ => .notANumber
  | .infinite negative => .infinity (signOf negative)
  | .finite negative significand scale =>
    if h : significand = 0 then .zero (signOf negative)
    else .finite (signOf negative) significand scale (Nat.pos_of_ne_zero h)

namespace BinaryFormat

/-- The binary format of the core library's format. -/
def ofFormat (spec : Format) : BinaryFormat :=
  ⟨spec.mantissaBitsWithoutImplicit, spec.exponentBits⟩

/-! ## The parts of a word -/

section Parts

variable {spec : Format} (b : BitVec spec.numBits)

theorem toNat_unpackMantissa : (UnpackedFloat.unpackMantissa b).toNat
    = b.toNat % (ofFormat spec).signWeight % 2 ^ spec.mantissaBitsWithoutImplicit := by
  rw [UnpackedFloat.unpackMantissa_def, BitVec.extractLsb'_toNat, Nat.shiftRight_zero, signWeight,
    ofFormat, Nat.pow_add, Nat.mod_mul_left_mod]

theorem toNat_unpackExponent : (UnpackedFloat.unpackExponent b).toNat
    = b.toNat % (ofFormat spec).signWeight / 2 ^ spec.mantissaBitsWithoutImplicit := by
  rw [UnpackedFloat.unpackExponent_def, BitVec.extractLsb'_toNat, Nat.shiftRight_eq_div_pow,
    signWeight, ofFormat, Nat.add_comm, Nat.pow_add, Nat.mod_mul_right_div_self]

theorem toNat_unpackSign :
    (UnpackedFloat.unpackSign b).toNat = b.toNat / (ofFormat spec).signWeight % 2 := by
  rw [UnpackedFloat.unpackSign_def, BitVec.extractLsb'_toNat, Nat.shiftRight_eq_div_pow,
    signWeight, ofFormat, Nat.pow_one, Nat.add_comm]

theorem ofBitVec_unpackSign : Sign.ofBitVec (UnpackedFloat.unpackSign b)
    = signOf (b.toNat / (ofFormat spec).signWeight % 2 == 1) := by
  have hsign (v : BitVec 1) : Sign.ofBitVec v = signOf (v.toNat == 1) := by
    obtain rfl | rfl := BitVec.eq_zero_or_eq_one v <;> rfl
  rw [hsign, toNat_unpackSign]

end Parts

variable {spec : Format}

theorem fractionBits_ofFormat (spec : Format) :
    (ofFormat spec).fractionBits = spec.mantissaBitsWithoutImplicit := rfl

theorem exponentBits_ofFormat (spec : Format) :
    (ofFormat spec).exponentBits = spec.exponentBits := rfl

theorem minScale_ofFormat (spec : Format) : (ofFormat spec).minScale
    = 1 - ((spec.exponentBias : Int) + spec.mantissaBitsWithoutImplicit) := by
  have hpos : 0 < 2 ^ (spec.exponentBits - 1) := Nat.two_pow_pos _
  have hcast : ((2 ^ (spec.exponentBits - 1) : Nat) : Int) = 2 ^ (spec.exponentBits - 1) := by
    push_cast
    rfl
  rw [minScale, Format.exponentBias, fractionBits_ofFormat, exponentBits_ofFormat, ← hcast]
  omega

/-- A word is unpacked to what it denotes. -/
theorem unpack_eq_unpacked (b : BitVec spec.numBits) :
    UnpackedFloat.unpack spec b = ((ofFormat spec).denote b.toNat).unpacked := by
  have hmin := minScale_ofFormat spec
  have hsign := ofBitVec_unpackSign b
  have hdigits : (1#1 ++ UnpackedFloat.unpackMantissa b).toNat
      = 2 ^ spec.mantissaBitsWithoutImplicit + (UnpackedFloat.unpackMantissa b).toNat := by
    rw [BitVec.toNat_append, ← Nat.shiftLeft_add_eq_or_of_lt (BitVec.isLt _), Nat.shiftLeft_eq,
      BitVec.toNat_ofNat]
    simp
  have hpos := Nat.two_pow_pos spec.mantissaBitsWithoutImplicit
  simp only [denote, fractionBits_ofFormat, exponentBits_ofFormat, ← toNat_unpackMantissa,
    ← toNat_unpackExponent]
  generalize (b.toNat / (ofFormat spec).signWeight % 2 == 1) = negative at hsign ⊢
  simp only [UnpackedFloat.unpack, hsign, ← BitVec.toNat_inj, BitVec.neg_one_eq_allOnes,
    BitVec.toNat_allOnes, BitVec.toNat_zero, hdigits]
  split
  · split <;> rfl
  · split
    · rename_i hsubnormal
      split
      · rename_i hnone
        have hnone' : (UnpackedFloat.unpackMantissa b).toNat = 0 := by
          rw [hnone]
          rfl
        rw [Datum.unpacked, dif_pos hnone']
      · rename_i hsome
        have hsome' : (UnpackedFloat.unpackMantissa b).toNat ≠ 0 :=
          fun hzero => hsome (BitVec.eq_of_toNat_eq hzero)
        rw [Datum.unpacked, dif_neg hsome']
        congr 1
        omega
    · rename_i hnormal
      rw [Datum.unpacked, dif_neg (by omega)]
      congr 1
      omega

/-- The core library takes those words for no number that denote none. -/
theorem isNaNBits_iff (b : BitVec spec.numBits) :
    UnpackedFloat.isNaNBits b = true ↔ ((ofFormat spec).denote b.toNat).isNaN = true := by
  rw [isNaN_denote_iff, UnpackedFloat.isNaNBits, decide_eq_true_eq, fractionBits_ofFormat,
    exponentBits_ofFormat, ← toNat_unpackExponent, ← toNat_unpackMantissa, ← BitVec.toNat_inj,
    BitVec.neg_one_eq_allOnes, BitVec.toNat_allOnes, ne_eq, ← BitVec.toNat_inj]
  rfl

/-- What a word denotes is packed to that word. -/
theorem pack_unpacked (hspec : 2 ≤ spec.exponentBits) {word : Nat}
    (hword : word < 2 * (ofFormat spec).signWeight)
    (hnan : ((ofFormat spec).denote word).isNaN = false) :
    (UnpackedFloat.pack spec ((ofFormat spec).denote word).unpacked).toNat = word := by
  have hbits : 2 * (ofFormat spec).signWeight = 2 ^ spec.numBits := by
    rw [signWeight, fractionBits_ofFormat, exponentBits_ofFormat, Format.numBits, Nat.add_assoc,
      Nat.pow_add 2 1, Nat.pow_one]
  have htoNat : (BitVec.ofNat spec.numBits word).toNat = word := by
    rw [BitVec.toNat_ofNat, Nat.mod_eq_of_lt (hbits ▸ hword)]
  have hkept := UnpackedFloat.pack_unpack (BitVec.ofNat spec.numBits word) hspec
  rw [if_neg (by rw [isNaNBits_iff, htoNat, hnan]; exact Bool.false_ne_true), unpack_eq_unpacked,
    htoNat] at hkept
  rw [hkept, htoNat]

/-- What has too large an exponent is packed to infinity. -/
theorem pack_of_large (hspec : 2 ≤ spec.exponentBits) (negative : Bool) {significand : Nat}
    {scale : Int} (hpos : 0 < significand)
    (hlarge : 2 ^ spec.exponentBits ≤ (scale - (ofFormat spec).minScale).toNat + 2) :
    (UnpackedFloat.pack spec (.finite (signOf negative) significand scale hpos)).toNat
      = (ofFormat spec).signWord negative + (ofFormat spec).infinityWord := by
  have hfour : 2 ^ 2 ≤ 2 ^ spec.exponentBits := Nat.pow_le_pow_right (by decide) hspec
  have hbiased : 2 ^ spec.exponentBits
      ≤ (scale + spec.exponentBias + spec.mantissaBitsWithoutImplicit).toNat + 1 := by
    have hmin := minScale_ofFormat spec
    omega
  have hinfinity : UnpackedFloat.pack spec (.finite (signOf negative) significand scale hpos)
      = UnpackedFloat.pack spec (Datum.infinite negative).unpacked := by
    simp only [UnpackedFloat.pack]
    rw [if_pos hbiased]
    rfl
  have hdenote := denote_infinityWord (f := ofFormat spec) negative
  rw [hinfinity, ← hdenote]
  exact pack_unpacked hspec (signWord_add_lt _ _ (infinityWord_lt _)) (isNaN_denote_of_le le_rfl)

end BinaryFormat

end StreamQuery.Numeric
