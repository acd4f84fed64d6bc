import StreamQuery.Aggregation
import StreamQuery.Expansion
import StreamQuery.Pipeline
set_option autoImplicit false

/-!
# Queries

A query is an aggregation and what happens to its result: the stages, then the
expansions, then the limit on the number of records.
-/

namespace StreamQuery

/-- A query under way. -/
structure Query where
  aggregation : Aggregation
  pipeline : Pipeline
  expansions : List Expansion
  settings : Settings
  /-- The number of records taken. -/
  consumed : Nat

namespace Query

/-- A query before its first record. -/
def new (aggregation : Aggregation) (stages : List Stage) (expansions : List Expansion)
    (settings : Settings) : Outcome Query := do
  settings.validate
  let pipeline ← Pipeline.ofStages stages
  expansions.forM Expansion.validate
  return ⟨aggregation, pipeline, expansions, settings, 0⟩

/-- Runs an operation of the aggregation. -/
def lift {α : Type} (q : Query) (f : Aggregation → Transition Aggregation α) :
    Transition Query α :=
  (f q.aggregation).within fun aggregation => { q with aggregation }

/-- Takes a record; one that is rejected does not count. -/
def consume (q : Query) (r : Record) : Transition Query Unit :=
  (q.lift (·.consume r)).andThen fun _ q => .done () { q with consumed := q.consumed + 1 }

/-- Takes the bytes of another query. -/
def combine (q : Query) (bs : Bytes) : Transition Query Unit := q.lift (·.combine bs)

/-- The bytes for another query. -/
def data (q : Query) : Transition Query Bytes := q.lift Aggregation.data

/-- At most as many records as the settings allow. -/
def limit (s : Settings) (b : Batch) : Batch :=
  if 0 < s.maxResultRecords then b.take s.maxResultRecords else b

/-- The result of a query, made from that of its aggregation. -/
def complete (q : Query) (b : Batch) : Outcome Batch := do
  let b ← q.pipeline.run b
  return limit q.settings (b.withRecords (Expansion.expand b.records q.expansions))

/-- The result of the query. -/
def finish (q : Query) : Transition Query Batch :=
  (q.lift Aggregation.result).mapOutcome q.complete

/-- Forgets all records. -/
def reset (q : Query) : Query := { q with aggregation := q.aggregation.reset, consumed := 0 }

end Query

end StreamQuery
