import StreamQuery.Aggregation.GroupBy
set_option autoImplicit false

/-!
# COUNT DISTINCT

The number of distinct tuples that some expressions take on the records, exact up to
the capacity and estimated beyond it.  An expression that cannot be evaluated is
NULL.
-/

namespace StreamQuery

/-- A COUNT DISTINCT under way. -/
structure CountDistinct where
  fields : List Expr
  /-- The name of the output. -/
  name : String
  sketch : DistinctSketch

namespace CountDistinct

/-- The name of an output without a name of its own. -/
def defaultName : String := "COUNT DISTINCT"

/-- A COUNT DISTINCT before its first record. -/
def new (fields : List Expr) (name : Option String) (settings : Settings) :
    Outcome CountDistinct :=
  if fields.isEmpty then .error (.configuration .emptyCountDistinct)
  else .ok ⟨fields, (Aggregate.nonBlank name).getD defaultName,
    Sketch.new settings.countDistinctEntries⟩

/-- Runs an operation of the sketch inside. -/
def lift {α : Type} (q : CountDistinct) (f : DistinctSketch → Transition DistinctSketch α) :
    Transition CountDistinct α :=
  (f q.sketch).within fun sketch => { q with sketch }

/-- The tuple of a record. -/
def tupleOf (q : CountDistinct) (r : Record) : List Value :=
  q.fields.map (·.evalOrNull Record.lookup r)

/-- Takes a record. -/
def consume (q : CountDistinct) (r : Record) : Transition CountDistinct Unit :=
  q.lift fun s => (Sketch.add s (Value.hashTuple (q.tupleOf r)) ()).map fun _ => ()

/-- Takes the bytes of another COUNT DISTINCT. -/
def combine (q : CountDistinct) (bs : Bytes) : Transition CountDistinct Unit :=
  q.lift fun s => (Sketch.unionBytes s bs).map fun _ => ()

/-- The bytes for another COUNT DISTINCT. -/
def data (q : CountDistinct) : Transition CountDistinct Bytes := q.lift Sketch.bytes

/-- One record with the count, with the accuracy as metadata. -/
def result (q : CountDistinct) : Transition CountDistinct Batch :=
  q.lift fun s => s.estimate.andThen fun estimate s =>
    (Sketch.accuracy s).map fun accuracy =>
      accuracy.describe (.ofRecords [Record.empty.set q.name (.ofEstimate estimate)])

/-- Forgets all records. -/
def reset (q : CountDistinct) : CountDistinct := { q with sketch := q.sketch.reset }

/-- The number of merges so far. -/
def mergeCount (q : CountDistinct) : Nat := q.sketch.mergeCount

end CountDistinct

end StreamQuery
