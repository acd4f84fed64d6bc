import StreamQuery.Aggregation.CountDistinct
set_option autoImplicit false

/-!
# Aggregations

An aggregation takes records, and the bytes of other aggregations that saw other
records, and has a batch of records as its result.
-/

namespace StreamQuery

/-- An aggregation under way. -/
inductive Aggregation where
  | groupBy (q : GroupBy)
  | countDistinct (q : CountDistinct)

namespace Aggregation

/-- Takes a record. -/
def consume (a : Aggregation) (r : Record) : Transition Aggregation Unit :=
  match a with
  | groupBy q => (q.consume r).within groupBy
  | countDistinct q => (q.consume r).within countDistinct

/-- Takes the bytes of another aggregation. -/
def combine (a : Aggregation) (bs : Bytes) : Transition Aggregation Unit :=
  match a with
  | groupBy q => (q.combine bs).within groupBy
  | countDistinct q => (q.combine bs).within countDistinct

/-- The bytes for another aggregation. -/
def data : Aggregation → Transition Aggregation Bytes
  | groupBy q => q.data.within groupBy
  | countDistinct q => q.data.within countDistinct

/-- The result records with the accuracy as metadata. -/
def result : Aggregation → Transition Aggregation Batch
  | groupBy q => q.result.within groupBy
  | countDistinct q => q.result.within countDistinct

/-- Forgets all records. -/
def reset : Aggregation → Aggregation
  | groupBy q => groupBy q.reset
  | countDistinct q => countDistinct q.reset

/-- The number of merges so far. -/
def mergeCount : Aggregation → Nat
  | groupBy q => q.mergeCount
  | countDistinct q => q.mergeCount

end Aggregation

end StreamQuery
