import StreamQuery.Numeric.Number
set_option autoImplicit false

/-!
# Conversions between numbers

Single and double precision numbers, and the integers, are converted through what
their words denote: widening is exact, narrowing and the conversion of an integer
round to nearest, the conversion to an integer drops the fraction and stops at
the bounds of the target.
-/

namespace StreamQuery.Numeric

open BinaryFormat (Number)

/-- The double precision number of a word. -/
abbrev doubleOfWord (word : Nat) : Double := .ofWord .double word

/-- The single precision number of a word. -/
abbrev singleOfWord (word : Nat) : Single := .ofWord .single word

/-- A single precision number in double precision; exact. -/
abbrev widen (x : Single) : Double := x.convert

/-- The single precision number nearest to a double precision one. -/
abbrev narrow (x : Double) : Single := x.convert

/-- The double precision number nearest to an integer. -/
abbrev doubleOfInt (n : Int) : Double := .ofInt n

/-- The single precision number nearest to an integer. -/
abbrev singleOfInt (n : Int) : Single := .ofInt n

/-- The double precision number nearest to `num / den`; for `den = 0` what the division of two
numbers would give. -/
def doubleOfRatio (num den : Nat) : Double :=
  if den = 0 then
    if num = 0 then .nan .double true else doubleOfWord BinaryFormat.double.infinityWord
  else
    doubleOfWord (BinaryFormat.double.nearest false num den)

/-- A natural number rounded to what double precision can hold; exact below `2 ^ 53`. -/
def significant (n : Nat) : Nat :=
  match BinaryFormat.double.denote (BinaryFormat.double.nearest false n 1) with
  | .finite _ significand scale => significand * 2 ^ scale.toNat / 2 ^ (-scale).toNat
  | _ => n

/-- A denoted number as a 32-bit integer. -/
def truncateToInt32 (d : Datum) : Int32 :=
  Int32.ofInt (d.truncate Int32.minValue.toInt Int32.maxValue.toInt)

/-- A denoted number as a 64-bit integer. -/
def truncateToInt64 (d : Datum) : Int64 :=
  Int64.ofInt (d.truncate Int64.minValue.toInt Int64.maxValue.toInt)

end StreamQuery.Numeric
