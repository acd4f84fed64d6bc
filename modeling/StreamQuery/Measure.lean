set_option autoImplicit false

/-!
# Measures

What an aggregate computes over the records of a group.
-/

namespace StreamQuery

/-- What is computed over a group. -/
inductive Measure where
  /-- The number of records. -/
  | count
  /-- The number of records whose field is not NULL; it accompanies an average and is never
  requested on its own. -/
  | countField
  | sum
  | min
  | max
  | avg
  deriving DecidableEq, Repr, Inhabited

namespace Measure

/-- The name of a measure in declarations, messages and results. -/
def name : Measure → String
  | count => "COUNT"
  | countField => "COUNT_FIELD"
  | sum => "SUM"
  | min => "MIN"
  | max => "MAX"
  | avg => "AVG"

/-- Every measure but the record count reads a field. -/
def requiresField (m : Measure) : Bool := m != count

/-- Whether a measure is kept for the use of another one only. -/
def isInternal (m : Measure) : Bool := m == countField

/-- The measure of a name, internal ones included. -/
def ofName? : String → Option Measure
  | "COUNT" => some count
  | "COUNT_FIELD" => some countField
  | "SUM" => some sum
  | "MIN" => some min
  | "MAX" => some max
  | "AVG" => some avg
  | _ => none

theorem ofName?_name (m : Measure) : ofName? m.name = some m := by
  cases m <;> rfl

end Measure

end StreamQuery
