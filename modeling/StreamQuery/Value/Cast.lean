import StreamQuery.Value.Literal
set_option autoImplicit false

/-!
# Casts

A cast gives the value of another kind or fails; it never replaces a value by a
default.  NULL is a value of every kind.  A floating-point number loses its
fraction and stops at the bounds of an integral kind, and a LONG keeps its low
thirty-two bits as an INTEGER.
-/

namespace StreamQuery.Value

/-- A scalar as an INTEGER. -/
def toInteger? : Value → Option Int32
  | boolean b => some (if b then 1 else 0)
  | integer n => some n
  | long n => some n.toInt32
  | float x => some (Numeric.truncateToInt32 x.datum)
  | double x => some (Numeric.truncateToInt32 x.datum)
  | string s => readInteger? s
  | _ => none

/-- A scalar as a LONG. -/
def toLong? : Value → Option Int64
  | boolean b => some (if b then 1 else 0)
  | integer n => some n.toInt64
  | long n => some n
  | float x => some (Numeric.truncateToInt64 x.datum)
  | double x => some (Numeric.truncateToInt64 x.datum)
  | string s => readLong? s
  | _ => none

/-- A scalar as a FLOAT. -/
def toSingle? : Value → Option Numeric.Single
  | boolean b => some (Numeric.singleOfInt (if b then 1 else 0))
  | integer n => some (Numeric.singleOfInt n.toInt)
  | long n => some (Numeric.singleOfInt n.toInt)
  | float x => some x
  | double x => some (Numeric.narrow x)
  | string s => readFloat? s
  | _ => none

/-- A scalar as a DOUBLE. -/
def scalarToDouble? : Value → Option Numeric.Double
  | boolean b => some (Numeric.doubleOfInt (if b then 1 else 0))
  | string s => readDouble? s
  | v => v.toDouble?

/-- The truth that a word stands for, in any case. -/
def truthOfWord? (text : String) : Option Bool :=
  match Text.upper (Text.trim text) with
  | "TRUE" | "T" | "1" => some true
  | "FALSE" | "F" | "0" => some false
  | _ => none

/-- A scalar as a BOOLEAN: a number is true unless it is zero. -/
def toBoolean? : Value → Option Bool
  | boolean b => some b
  | integer n => some (n != 0)
  | long n => some (n != 0)
  | float x => some !x.datum.isZero
  | double x => some !x.datum.isZero
  | string s => truthOfWord? s
  | _ => none

/-- A scalar as a STRING. -/
def toText? : Value → Option String
  | list _ | map _ => none
  | scalar => some scalar.text

/-- The value of another kind that a value converts to. -/
def convert? (v : Value) : Kind → Option Value
  | .boolean => v.toBoolean?.map boolean
  | .integer => v.toInteger?.map integer
  | .long => v.toLong?.map long
  | .float => v.toSingle?.map float
  | .double => v.scalarToDouble?.map double
  | .string => v.toText?.map string
  | .null | .list | .map => none

/-- Casts a value to a kind. -/
def cast (v : Value) (target : Kind) : Outcome Value :=
  if v.kind = target ∨ v.isNull then .ok v
  else match v.convert? target with
    | some value => .ok value
    | none => .error (.typeMismatch target.name v.kind.name (some v.text))

end StreamQuery.Value
