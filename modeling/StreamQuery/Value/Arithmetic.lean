import StreamQuery.Operator
import StreamQuery.Value
set_option autoImplicit false

/-!
# Arithmetic

Two numbers are widened to the wider of their kinds before an operator applies.
Integral results wrap around at the word; integral division gives the quotient
rounded down and fails for a zero divisor.
-/

namespace StreamQuery

/-- Two numbers of one kind. -/
inductive NumberPair where
  | integers (a b : Int32)
  | longs (a b : Int64)
  | floats (a b : Numeric.Single)
  | doubles (a b : Numeric.Double)

namespace NumberPair

/-- Two numeric values in the wider of their kinds; absent when one is not a number. -/
def of? : Value → Value → Option NumberPair
  | .integer a, .integer b => some (.integers a b)
  | .integer a, .long b => some (.longs a.toInt64 b)
  | .integer a, .float b => some (.floats (Numeric.singleOfInt a.toInt) b)
  | .integer a, .double b => some (.doubles (Numeric.doubleOfInt a.toInt) b)
  | .long a, .integer b => some (.longs a b.toInt64)
  | .long a, .long b => some (.longs a b)
  | .long a, .float b => some (.floats (Numeric.singleOfInt a.toInt) b)
  | .long a, .double b => some (.doubles (Numeric.doubleOfInt a.toInt) b)
  | .float a, .integer b => some (.floats a (Numeric.singleOfInt b.toInt))
  | .float a, .long b => some (.floats a (Numeric.singleOfInt b.toInt))
  | .float a, .float b => some (.floats a b)
  | .float a, .double b => some (.doubles (Numeric.widen a) b)
  | .double a, .integer b => some (.doubles a (Numeric.doubleOfInt b.toInt))
  | .double a, .long b => some (.doubles a (Numeric.doubleOfInt b.toInt))
  | .double a, .float b => some (.doubles a (Numeric.widen b))
  | .double a, .double b => some (.doubles a b)
  | _, _ => none

/-- A pair is formed exactly of two numeric values. -/
theorem isSome_of?_iff (l r : Value) :
    (of? l r).isSome = true ↔ l.isNumeric = true ∧ r.isNumeric = true := by
  cases l <;> cases r <;>
    simp [of?, Value.isNumeric, Value.kind, Kind.isNumeric, Kind.rank?]

end NumberPair

namespace Numeric

/-- Division of 32-bit integers, rounded down: the truncated quotient, less one where the signs
differ and a remainder is left. -/
def floorDiv32 (a b : Int32) : Int32 :=
  let q := a / b
  if a % b ≠ 0 ∧ decide (a < 0) ≠ decide (b < 0) then q - 1 else q

/-- Division of 64-bit integers, rounded down. -/
def floorDiv64 (a b : Int64) : Int64 :=
  let q := a / b
  if a % b ≠ 0 ∧ decide (a < 0) ≠ decide (b < 0) then q - 1 else q

end Numeric

namespace Value

/-- Applies an arithmetic operator to two 32-bit integers. -/
def integerArithmetic (op : BinaryOperator) (a b : Int32) : Outcome Value :=
  match op with
  | .add => .ok (integer (a + b))
  | .subtract => .ok (integer (a - b))
  | .multiply => .ok (integer (a * b))
  | _ => if b = 0 then .error .divisionByZero else .ok (integer (Numeric.floorDiv32 a b))

/-- Applies an arithmetic operator to two 64-bit integers. -/
def longArithmetic (op : BinaryOperator) (a b : Int64) : Outcome Value :=
  match op with
  | .add => .ok (long (a + b))
  | .subtract => .ok (long (a - b))
  | .multiply => .ok (long (a * b))
  | _ => if b = 0 then .error .divisionByZero else .ok (long (Numeric.floorDiv64 a b))

/-- Applies an arithmetic operator to two single precision numbers. -/
def floatArithmetic (op : BinaryOperator) (a b : Numeric.Single) : Value :=
  match op with
  | .add => float (a + b)
  | .subtract => float (a - b)
  | .multiply => float (a * b)
  | _ => float (a / b)

/-- Applies an arithmetic operator to two double precision numbers. -/
def doubleArithmetic (op : BinaryOperator) (a b : Numeric.Double) : Value :=
  match op with
  | .add => double (a + b)
  | .subtract => double (a - b)
  | .multiply => double (a * b)
  | _ => double (a / b)

/-- Applies an operator to two values.  Operators that are not arithmetic are refused, and then
the first operand that is not a number. -/
def arithmetic (op : BinaryOperator) (l r : Value) : Outcome Value :=
  if op.isArithmetic then
    match NumberPair.of? l r with
    | some (.integers a b) => integerArithmetic op a b
    | some (.longs a b) => longArithmetic op a b
    | some (.floats a b) => .ok (floatArithmetic op a b)
    | some (.doubles a b) => .ok (doubleArithmetic op a b)
    | none => .error (.unsupported op.symbol (if l.isNumeric then r else l).kind.name)
  else
    .error (.unsupported op.symbol "arithmetic")

/-- The sum of two values. -/
def add (l r : Value) : Outcome Value := arithmetic .add l r

/-- Negation, which is defined for a LONG and a DOUBLE alone. -/
def negate : Value → Outcome Value
  | long n => .ok (long (-n))
  | double x => .ok (double (-x))
  | other => .error (.unsupported "NEGATE" other.kind.name)

end Value

end StreamQuery
