import StreamQuery.Numeric.Binary
set_option autoImplicit false

/-!
# Shortest decimals

The text of a floating-point number has the fewest significant digits that read
back as the number, and of the decimals with that many digits the one nearest to
it.  A grid of decimals with `n` digits is searched by its two points next to the
number: if any point of the grid reads back, one of the two does.
-/

namespace StreamQuery.Numeric

/-- The non-negative decimal `digits · 10 ^ exponent`. -/
structure Decimal where
  digits : Nat
  exponent : Int
  deriving DecidableEq, Repr, Inhabited

namespace Decimal

/-- The decimal as a quotient of natural numbers. -/
def ratio (d : Decimal) : Nat × Nat :=
  (d.digits * 10 ^ d.exponent.toNat, 10 ^ (-d.exponent).toNat)

/-- The word of the format nearest to the decimal. -/
def word (d : Decimal) (f : BinaryFormat) : Nat := f.nearestMagnitude d.ratio.1 d.ratio.2

/-- The same decimal without zeros at the end of its digits. -/
def trimZeros (d : Decimal) : Decimal :=
  if d.digits ≠ 0 ∧ d.digits % 10 = 0 then
    trimZeros ⟨d.digits / 10, d.exponent + 1⟩
  else
    d
termination_by d.digits

end Decimal

/-- Which of two equally near shortest decimals is written. -/
inductive DecimalTie where
  | up
  | even
  deriving DecidableEq, Repr

/-- The order of magnitude of a positive quotient in decimals: the largest `k` with
`10 ^ k ≤ num / den`.  The binary order tells it up to one. -/
def decimalOrder (num den : Nat) : Int :=
  let k := Int.fdiv (binaryOrder num den * 30103) 100000
  if den * 10 ^ (k + 1).toNat ≤ num * 10 ^ (-(k + 1)).toNat then k + 1 else k

/-- The decimal with digits at `10 ^ unit` and above that reads back as the word of `num / den`. -/
def decimalOnGrid? (f : BinaryFormat) (tie : DecimalTie) (num den word : Nat) (unit : Int) :
    Option Decimal :=
  let n := num * 10 ^ (-unit).toNat
  let d := den * 10 ^ unit.toNat
  let below := n / d
  let lower : Decimal := ⟨below, unit⟩
  let upper : Decimal := ⟨below + 1, unit⟩
  let twice := 2 * (n % d)
  match lower.word f == word, upper.word f == word with
  | false, false => none
  | true, false => some lower
  | false, true => some upper
  | true, true =>
    if twice < d then some lower
    else if d < twice then some upper
    else match tie with
      | .up => some upper
      | .even => some (if below % 2 = 0 then lower else upper)

/-- The shortest decimal of the positive quotient `num / den`, whose word is `word`.  Seventeen
digits suffice for double precision. -/
def shortestDecimal (f : BinaryFormat) (tie : DecimalTie) (num den word : Nat) : Decimal :=
  let order := decimalOrder num den
  let grids := (List.range 17).map fun (n : Nat) => order - n
  ((grids.findSome? (decimalOnGrid? f tie num den word)).getD
    ⟨num * 10 ^ (16 - order).toNat / (den * 10 ^ (order - 16).toNat), order - 16⟩).trimZeros

end StreamQuery.Numeric
