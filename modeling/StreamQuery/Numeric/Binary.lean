import StreamQuery.Numeric.Power
set_option autoImplicit false

/-!
# Binary floating-point formats

A binary format packs a sign, an exponent and a fraction into one word.  This
module says what a word of a format denotes, and which word lies nearest to a
quotient of natural numbers.  Both directions are exact: nothing here computes
with floating-point numbers, so every conversion of this library that rounds is
one application of `BinaryFormat.nearest`.

Words are kept as natural numbers.  The words of the non-negative numbers of a
format are ordered as the numbers they denote, which is why `nearestMagnitude`
may add a rounded significand, carry included, to the start of its binade.
-/

namespace StreamQuery.Numeric

/-- A binary format of `1 + exponentBits + fractionBits` bits. -/
structure BinaryFormat where
  fractionBits : Nat
  exponentBits : Nat
  deriving DecidableEq, Repr, Inhabited

/-- What a word of a binary format denotes; a finite number is `± significand · 2 ^ scale`.  What is
no number has a sign as well. -/
inductive Datum where
  | nan (negative : Bool)
  | infinite (negative : Bool)
  | finite (negative : Bool) (significand : Nat) (scale : Int)
  deriving DecidableEq, Repr, Inhabited

/-! ## Rounding a quotient -/

/-- The natural number nearest to `num / den`; of two equally near ones the even one. -/
def roundHalfEven (num den : Nat) : Nat :=
  let q := num / den
  let twice := 2 * (num % den)
  if twice < den then q else if den < twice then q + 1 else q + q % 2

/-- The order of magnitude of a positive quotient: the largest `k` with `2 ^ k ≤ num / den`. -/
def binaryOrder (num den : Nat) : Int :=
  let k : Int := (num.log2 : Int) - den.log2
  if num * 2 ^ (-k).toNat < den * 2 ^ k.toNat then k - 1 else k

theorem roundHalfEven_one (n : Nat) : roundHalfEven n 1 = n := by
  simp [roundHalfEven, Nat.mod_one]

/-- The rounded quotient is one of the two neighbours of the exact one. -/
theorem roundHalfEven_bounds (num den : Nat) :
    num / den ≤ roundHalfEven num den ∧ roundHalfEven num den ≤ num / den + 1 := by
  simp only [roundHalfEven]
  split
  · omega
  · split <;> omega

namespace BinaryFormat

/-- The 32-bit format. -/
def single : BinaryFormat := ⟨23, 8⟩

/-- The 64-bit format. -/
def double : BinaryFormat := ⟨52, 11⟩

variable (f : BinaryFormat)

/-- The smallest positive number of the format is `2 ^ minScale`. -/
def minScale : Int := 2 - 2 ^ (f.exponentBits - 1) - f.fractionBits

/-- The word of positive infinity; every finite magnitude has a smaller word. -/
def infinityWord : Nat := (2 ^ f.exponentBits - 1) * 2 ^ f.fractionBits

/-- The weight of the sign in a word. -/
def signWeight : Nat := 2 ^ (f.exponentBits + f.fractionBits)

/-- The magnitude in which what is no number is kept. -/
def nanWord : Nat := f.infinityWord + 2 ^ (f.fractionBits - 1)

/-- The word of the sign alone. -/
def signWord (negative : Bool) : Nat := if negative then f.signWeight else 0

/-- What a word denotes. -/
def denote (word : Nat) : Datum :=
  let negative := word / f.signWeight % 2 == 1
  let magnitude := word % f.signWeight
  let exponent := magnitude / 2 ^ f.fractionBits
  let fraction := magnitude % 2 ^ f.fractionBits
  if exponent = 2 ^ f.exponentBits - 1 then
    if fraction = 0 then .infinite negative else .nan negative
  else if exponent = 0 then
    .finite negative fraction f.minScale
  else
    .finite negative (2 ^ f.fractionBits + fraction) (f.minScale + (exponent - 1))

/-- The word of the magnitude nearest to `num / den`, ties to the even word; magnitudes past the
largest finite one give infinity. -/
def nearestMagnitude (num den : Nat) : Nat :=
  if num = 0 then 0
  else
    let scale := max (binaryOrder num den - f.fractionBits) f.minScale
    let significand := roundHalfEven (num * 2 ^ (-scale).toNat) (den * 2 ^ scale.toNat)
    min (significand + (scale - f.minScale).toNat * 2 ^ f.fractionBits) f.infinityWord

/-- The word nearest to `± num / den`. -/
def nearest (negative : Bool) (num den : Nat) : Nat :=
  f.signWord negative + f.nearestMagnitude num den

/-- The word nearest to what is denoted, possibly by a word of another format. -/
def encode : Datum → Nat
  | .nan negative => f.signWord negative + f.nanWord
  | .infinite negative => f.signWord negative + f.infinityWord
  | .finite negative significand scale =>
    f.nearest negative (significand * 2 ^ scale.toNat) (2 ^ (-scale).toNat)

/-- The word nearest to an integer. -/
def encodeInt (n : Int) : Nat := f.nearest (n < 0) n.natAbs 1

/-- The place of a word in the total order: negative numbers downwards from `-0`, then `+0`
upwards, the infinities beyond the finite numbers, and what is no number beyond them all on either
side, by its sign. -/
def orderKey (word : Nat) : Int :=
  if word < f.signWeight then word else f.signWeight - 1 - (word : Int)

theorem nearestMagnitude_zero (den : Nat) : f.nearestMagnitude 0 den = 0 := by
  simp [nearestMagnitude]

theorem nearestMagnitude_le (num den : Nat) : f.nearestMagnitude num den ≤ f.infinityWord := by
  simp only [nearestMagnitude]
  split
  · exact Nat.zero_le _
  · exact Nat.min_le_right _ _

/-- Distinct words have distinct places in the total order. -/
theorem orderKey_injective {a b : Nat} (h : f.orderKey a = f.orderKey b) : a = b := by
  simp only [orderKey] at h
  split at h <;> split at h <;> omega

end BinaryFormat

namespace Datum

/-- Whether no number is denoted. -/
def isNaN : Datum → Bool
  | .nan _ => true
  | _ => false

/-- Whether an infinity is denoted. -/
def isInfinite : Datum → Bool
  | .infinite _ => true
  | _ => false

/-- Whether a zero is denoted. -/
def isZero : Datum → Bool
  | .finite _ significand _ => significand == 0
  | _ => false

/-- Whether a number above zero is denoted. -/
def isPositive : Datum → Bool
  | .nan _ => false
  | .infinite negative => !negative
  | .finite negative significand _ => !negative && significand != 0

/-- The integer denoted, when a whole number is denoted. -/
def whole? : Datum → Option Int
  | .finite negative significand scale =>
    let unit := 2 ^ (-scale).toNat
    if significand % unit = 0 then
      let n : Int := (significand * 2 ^ scale.toNat / unit : Nat)
      some (if negative then -n else n)
    else
      none
  | _ => none

/-- The integer next to what is denoted on the way to zero, brought into `lo .. hi`; zero when no
number is denoted. -/
def truncate (lo hi : Int) : Datum → Int
  | .nan _ => 0
  | .infinite negative => if negative then lo else hi
  | .finite negative significand scale =>
    let n : Int := (significand * 2 ^ scale.toNat / 2 ^ (-scale).toNat : Nat)
    max lo (min hi (if negative then -n else n))

/-- The natural number nearest to a positive magnitude, halves upwards. -/
def roundHalfUp : Datum → Nat
  | .finite _ significand scale =>
    let unit := 2 ^ (-scale).toNat
    (2 * significand * 2 ^ scale.toNat + unit) / (2 * unit)
  | _ => 0

end Datum

end StreamQuery.Numeric
