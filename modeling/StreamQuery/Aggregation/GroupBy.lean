import StreamQuery.Expr.Eval
import StreamQuery.Sketch.Group
set_option autoImplicit false

/-!
# GROUP BY

Records are grouped by the values of key expressions, and aggregates are computed
for every group.  A key that cannot be evaluated is NULL; a record that an
accumulator rejects is not counted anywhere.
-/

namespace StreamQuery

/-- What a GROUP BY computes. -/
structure Grouping where
  /-- The key expressions under their output names. -/
  keys : List (String × Expr)
  aggregates : List Aggregate
  policy : NullPolicy
  /-- How fields are resolved. -/
  lookup : Lookup

namespace Grouping

/-- Checks output names: none may be blank or stand twice. -/
def checkNames (seen : List String) : List String → Outcome Unit
  | [] => .ok ()
  | name :: rest =>
    if Text.isBlankText name then .error (.configuration .blankOutputName)
    else if name ∈ seen then .error (.configuration (.duplicateOutputName name))
    else checkNames (name :: seen) rest

/-- The names of the fields of a result record. -/
def outputNames (g : Grouping) : List String :=
  g.keys.map (·.1) ++ g.aggregates.map Aggregate.outputName

/-- Checks what a GROUP BY is asked to compute. -/
def validate (g : Grouping) : Outcome Unit :=
  if g.keys.isEmpty ∧ g.aggregates.isEmpty then .error (.configuration .emptyGroupBy)
  else checkNames [] g.outputNames

/-- The accumulators kept for every group. -/
def accumulators (g : Grouping) : List Aggregate := Aggregate.accumulators g.aggregates

/-- The key of a record. -/
def keyOf (g : Grouping) (r : Record) : List Value :=
  g.keys.map fun key => key.2.evalOrNull g.lookup r

/-- The group of a single record. -/
def groupOf (g : Grouping) (r : Record) : Outcome Group :=
  match (Summary.start g.accumulators).consume g.lookup g.policy r with
  | (.ok (), summary) => .ok ⟨g.keyOf r, summary⟩
  | (.error e, _) => .error e

/-- The result record of a group. -/
def resultRecord (g : Grouping) (group : Group) : Record :=
  group.summary.writeResults g.aggregates (.ofList ((g.keys.map (·.1)).zip group.key))

end Grouping

/-- A GROUP BY under way. -/
structure GroupBy where
  grouping : Grouping
  sketch : GroupSketch

namespace GroupBy

/-- A GROUP BY before its first record, which resolves fields against the record alone. -/
def new (keys : List (String × Expr)) (aggregates : List Aggregate) (settings : Settings) :
    Outcome GroupBy := do
  let grouping : Grouping := ⟨keys, aggregates, settings.nullPolicy, Record.lookup⟩
  grouping.validate
  return ⟨grouping, .new settings.groupEntries⟩

theorem eq_of_new {keys : List (String × Expr)} {aggregates : List Aggregate}
    {settings : Settings} {q : GroupBy} (h : new keys aggregates settings = .ok q) :
    q = ⟨⟨keys, aggregates, settings.nullPolicy, Record.lookup⟩, .new settings.groupEntries⟩ := by
  simp only [new, bind, Except.bind, pure, Except.pure] at h
  split at h
  · cases h
  · exact (Except.ok.inj h).symm

/-- Resolves fields in another way. -/
def withLookup (q : GroupBy) (lookup : Lookup) : GroupBy :=
  { q with grouping := { q.grouping with lookup } }

/-- Runs an operation of the sketch inside. -/
def lift {α : Type} (q : GroupBy) (f : GroupSketch → Transition GroupSketch α) :
    Transition GroupBy α :=
  (f q.sketch).within fun sketch => { q with sketch }

/-- Takes a record. -/
def consume (q : GroupBy) (r : Record) : Transition GroupBy Unit :=
  match q.grouping.groupOf r with
  | .ok group => q.lift (·.add group)
  | .error e => .fail e q

/-- Takes the bytes of another GROUP BY. -/
def combine (q : GroupBy) (bs : Bytes) : Transition GroupBy Unit :=
  q.lift fun s => (s.unionBytes bs).map fun _ => ()

/-- The bytes for another GROUP BY. -/
def data (q : GroupBy) : Transition GroupBy Bytes := q.lift GroupSketch.bytes

/-- A record for every group, with the accuracy as metadata. -/
def result (q : GroupBy) : Transition GroupBy Batch :=
  q.lift fun s => s.accuracy.andThen fun accuracy s =>
    s.groups.map fun groups =>
      accuracy.describe (.ofRecords (groups.map q.grouping.resultRecord))

/-- Forgets all records. -/
def reset (q : GroupBy) : GroupBy := { q with sketch := q.sketch.reset }

/-- The number of merges so far. -/
def mergeCount (q : GroupBy) : Nat := q.sketch.sketch.mergeCount

end GroupBy

end StreamQuery
