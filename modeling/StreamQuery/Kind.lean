import StreamQuery.Text.Letter
set_option autoImplicit false

/-!
# Kinds of values

Every value has a kind.  The four numeric kinds form a chain,
`INTEGER < LONG < FLOAT < DOUBLE`, and two numbers meet in the wider of their
kinds.
-/

namespace StreamQuery

/-- The kind of a value. -/
inductive Kind where
  | null
  | boolean
  | integer
  | long
  | float
  | double
  | string
  | list
  | map
  deriving DecidableEq, Repr, Inhabited

namespace Kind

/-- The name of a kind in messages and results. -/
def name : Kind → String
  | null => "NULL"
  | boolean => "BOOLEAN"
  | integer => "INTEGER"
  | long => "LONG"
  | float => "FLOAT"
  | double => "DOUBLE"
  | string => "STRING"
  | list => "LIST"
  | map => "MAP"

/-- The place of a numeric kind in the widening chain. -/
def rank? : Kind → Option Nat
  | integer => some 0
  | long => some 1
  | float => some 2
  | double => some 3
  | _ => none

/-- The kinds that take part in arithmetic. -/
def isNumeric (k : Kind) : Bool := k.rank?.isSome

/-- The kinds of whole numbers. -/
def isIntegral : Kind → Bool
  | integer | long => true
  | _ => false

/-- The kind that a capitalised name stands for. -/
def ofCapitals? : String → Option Kind
  | "NULL" => some null
  | "BOOLEAN" | "BOOL" => some boolean
  | "INTEGER" | "INT" => some integer
  | "LONG" | "BIGINT" => some long
  | "FLOAT" => some float
  | "DOUBLE" => some double
  | "STRING" | "VARCHAR" | "TEXT" => some string
  | "LIST" | "ARRAY" => some list
  | "MAP" => some map
  | _ => none

/-- A kind is known by its own name. -/
theorem ofCapitals?_name (k : Kind) : ofCapitals? k.name = some k := by
  cases k <;> rfl

end Kind

end StreamQuery
