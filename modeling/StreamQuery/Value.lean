import StreamQuery.Error
import StreamQuery.Keyed
import StreamQuery.Numeric.Conversion
import StreamQuery.Numeric.FloatText
set_option autoImplicit false

/-!
# Values

A field of a record holds a value: a scalar, a list of values, or a map from text
to values.  The entries of a map stand in ascending order of their keys.
-/

namespace StreamQuery

/-- The value of a field. -/
inductive Value where
  | null
  | boolean (b : Bool)
  | integer (n : Int32)
  | long (n : Int64)
  | float (x : Numeric.Single)
  | double (x : Numeric.Double)
  | string (s : String)
  | list (items : List Value)
  | map (entries : List (String × Value))
  deriving Inhabited

namespace Value

/-- The map with the entries of a keyed table. -/
def ofKeyed (t : Keyed String Value) : Value := map t.entries

/-- The kind of a value. -/
def kind : Value → Kind
  | null => .null
  | boolean _ => .boolean
  | integer _ => .integer
  | long _ => .long
  | float _ => .float
  | double _ => .double
  | string _ => .string
  | list _ => .list
  | map _ => .map

/-- Whether a value is NULL. -/
def isNull : Value → Bool
  | null => true
  | _ => false

/-- Whether a value takes part in arithmetic. -/
def isNumeric (v : Value) : Bool := v.kind.isNumeric

theorem isNull_iff {v : Value} : v.isNull = true ↔ v = null := by
  cases v <;> simp [isNull]

theorem isNull_of_isNumeric {v : Value} (h : v.isNumeric = true) : v.isNull = false := by
  cases v <;> first | rfl | cases h

/-! ## Text -/

/-- Numbers are shown without an exponent, and whole ones without a point; of two equally near
shortest decimals the upper one is shown. -/
def floatStyle : Numeric.FloatStyle := ⟨.up, "", none⟩

/-- The text of a single precision number. -/
def singleText (x : Numeric.Single) : String := floatStyle.text .single x.word

/-- The text of a double precision number. -/
def doubleText (x : Numeric.Double) : String := floatStyle.text .double x.word

/-- Braces around the parts of a map or a record. -/
def braced (parts : List String) : String := "\x7b" ++ ", ".intercalate parts ++ "\x7d"

mutual

/-- The text of a value. -/
def text : Value → String
  | null => "NULL"
  | boolean b => if b then "true" else "false"
  | integer n => toString n.toInt
  | long n => toString n.toInt
  | float x => singleText x
  | double x => doubleText x
  | string s => s
  | list items => "[" ++ ", ".intercalate (itemTexts items) ++ "]"
  | map entries => braced (entryTexts entries)

/-- The texts of the items of a list. -/
def itemTexts : List Value → List String
  | [] => []
  | v :: rest => v.text :: itemTexts rest

/-- The texts of the entries of a map. -/
def entryTexts : List (String × Value) → List String
  | [] => []
  | (key, v) :: rest => (key ++ ": " ++ v.text) :: entryTexts rest

end

/-! ## Small operations -/

/-- The number of items of a list or entries of a map. -/
def size (v : Value) : Outcome Value :=
  let counted (n : Nat) : Outcome Value :=
    if n < 2 ^ 31 then .ok (integer (Int32.ofNat n))
    else .error (.execution (.sizeTooLarge n) none)
  match v with
  | list items => counted items.length
  | map entries => counted entries.length
  | other => .error (.unsupported "SIZEOF" other.kind.name)

/-- The truth of a predicate's value; only a BOOLEAN has one. -/
def asBool : Value → Outcome Bool
  | boolean b => .ok b
  | other => .error (.typeMismatch "BOOLEAN" other.kind.name (some other.text))

/-- The double precision number nearest to a numeric value. -/
def toDouble? : Value → Option Numeric.Double
  | integer n => some (Numeric.doubleOfInt n.toInt)
  | long n => some (Numeric.doubleOfInt n.toInt)
  | float x => some (Numeric.widen x)
  | double x => some x
  | _ => none

end Value

end StreamQuery
