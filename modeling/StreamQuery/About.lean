set_option autoImplicit false

/-!
# About this engine

The version of the engine and the names of what it can do, for those who want to know
before they send a query.
-/

namespace StreamQuery

/-- The version of the engine. -/
def version : String := "0.4.0"

/-- What the engine can do. -/
def features : List String :=
  ["typed_arithmetic", "forced_cast", "group_by_sketch", "count_distinct", "having_clause",
    "computation", "order_by", "culling", "table_functions"]

end StreamQuery
