import StreamQuery.Numeric.Power
set_option autoImplicit false

/-!
# The text of integers

An integer is written in decimal digits, after a minus when it is negative.  It
is read from one or more decimal digits after at most one sign; leading zeros and
a plus are accepted, blanks are not.
-/

namespace StreamQuery.Numeric

/-- The number that a run of decimal digits denotes. -/
def digitsValue (ds : List Char) : Nat := ds.foldl (fun n c => 10 * n + (c.toNat - '0'.toNat)) 0

/-- Reads one or more decimal digits. -/
def readNat? (cs : List Char) : Option Nat :=
  if cs ≠ [] ∧ cs.all Char.isDigit then some (digitsValue cs) else none

/-- Reads decimal digits after at most one plus. -/
def readUnsigned? : List Char → Option Nat
  | '+' :: cs => readNat? cs
  | cs => readNat? cs

/-- Reads decimal digits after at most one sign. -/
def readInt? : List Char → Option Int
  | '-' :: cs => (readNat? cs).map fun n => -(n : Int)
  | cs => (readUnsigned? cs).map Int.ofNat

/-- Reads an integer that lies in `lo .. hi`. -/
def readIntIn? (lo hi : Int) (cs : List Char) : Option Int :=
  (readInt? cs).filter fun n => decide (lo ≤ n ∧ n ≤ hi)

/-- Reads a 32-bit integer. -/
def readInt32? (cs : List Char) : Option Int32 :=
  (readIntIn? Int32.minValue.toInt Int32.maxValue.toInt cs).map Int32.ofInt

/-- Reads a 64-bit integer. -/
def readInt64? (cs : List Char) : Option Int64 :=
  (readIntIn? Int64.minValue.toInt Int64.maxValue.toInt cs).map Int64.ofInt

/-! ## Hexadecimal digits -/

/-- The value of a hexadecimal digit. -/
def hexValue? (c : Char) : Option Nat :=
  if c.isDigit then some (c.toNat - '0'.toNat)
  else if 'a' ≤ c ∧ c ≤ 'f' then some (c.toNat - 'a'.toNat + 10)
  else if 'A' ≤ c ∧ c ≤ 'F' then some (c.toNat - 'A'.toNat + 10)
  else none

/-- The number that digits denote in a base of at most sixteen; there must be at least one digit,
and each below the base. -/
def readRadix? (base : Nat) (cs : List Char) : Option Nat :=
  if cs = [] then none
  else cs.foldlM (fun n c => ((hexValue? c).filter (· < base)).map (base * n + ·)) 0

/-! ## Words -/

/-- The natural numbers below this fit a 64-bit word. -/
def word64Bound : Nat := 2 ^ 64

/-- Reads a natural number that fits a 64-bit word. -/
def readWord64? (cs : List Char) : Option Nat :=
  (readUnsigned? cs).filter fun n => decide (n < word64Bound)

end StreamQuery.Numeric
