import StreamQuery.Aggregate.Reduction
import StreamQuery.Expr.Lookup
import StreamQuery.Settings
import StreamQuery.Transition
set_option autoImplicit false

/-!
# Summaries

A summary holds a running value for each accumulator of a group.  Records are folded
in one by one, and summaries of parts of a group combine.
-/

namespace StreamQuery

/-- The running value of an accumulator. -/
structure Metric where
  aggregate : Aggregate
  value : Value
  deriving Inhabited

/-- The running values of a group. -/
structure Summary where
  metrics : List Metric
  deriving Inhabited

namespace Metric

/-- An accumulator before the first record. -/
def start (a : Aggregate) : Metric := ⟨a, a.measure.initial⟩

/-- The value of the field an accumulator reads; a field that cannot be read counts as NULL, and
NULL is refused under the strict policy. -/
def fieldValue (lookup : Lookup) (policy : NullPolicy) (r : Record) (a : Aggregate) :
    Outcome Value :=
  match a.field with
  | none => .ok .null
  | some field => do
    let v ← match lookup field r with
      | .ok v => .ok v
      | .error e => if e.isLookup then .ok .null else .error e
    if v.isNull ∧ policy = .failFast then .error (.execution (.nullField field a.measure) none)
    else .ok v

/-- What a record adds to an accumulator. -/
def contribution (lookup : Lookup) (policy : NullPolicy) (r : Record) (m : Metric) :
    Outcome (Option Value) := do
  let v ← fieldValue lookup policy r m.aggregate
  m.aggregate.measure.contribution v

/-- Folds a value into an accumulator. -/
def absorb (m : Metric) (incoming : Value) : Outcome Metric :=
  (m.aggregate.measure.reduce m.value incoming).map fun value => { m with value }

end Metric

namespace Summary

/-- The summary of no records. -/
def start (accumulators : List Aggregate) : Summary := ⟨accumulators.map Metric.start⟩

/-- Folds contributions into the metrics they belong to, up to the first that fails. -/
def absorbAll : List (Metric × Option Value) → Transition (List Metric) Unit
  | [] => .done () []
  | (m, none) :: rest => (absorbAll rest).within (m :: ·)
  | (m, some v) :: rest =>
    match m.absorb v with
    | .ok m' => (absorbAll rest).within (m' :: ·)
    | .error e => .fail e (m :: rest.map (·.1))

/-- Folds a record in.  All contributions are formed before any metric changes. -/
def consume (lookup : Lookup) (policy : NullPolicy) (s : Summary) (r : Record) :
    Transition Summary Unit :=
  match s.metrics.mapM (Metric.contribution lookup policy r) with
  | .error e => .fail e s
  | .ok contributions => (absorbAll (s.metrics.zip contributions)).within Summary.mk

/-- Folds a metric into the first of the same accumulator, or adds it at the end. -/
def absorbMetric (incoming : Metric) : List Metric → Outcome (List Metric)
  | [] => .ok [incoming]
  | m :: rest =>
    if m.aggregate.sameAs incoming.aggregate then
      (m.absorb incoming.value).map (· :: rest)
    else
      (absorbMetric incoming rest).map (m :: ·)

/-- Folds metrics in one after another, up to the first that fails. -/
def absorbMetrics (metrics : List Metric) : List Metric → Transition (List Metric) Unit
  | [] => .done () metrics
  | m :: rest =>
    match absorbMetric m metrics with
    | .ok metrics' => absorbMetrics metrics' rest
    | .error e => .fail e metrics

/-- Folds another summary in. -/
def combine (s other : Summary) : Transition Summary Unit :=
  (absorbMetrics s.metrics other.metrics).within Summary.mk

/-- The running value of an accumulator. -/
def value? (s : Summary) (a : Aggregate) : Option Value :=
  (s.metrics.find? fun m => m.aggregate.sameAs a).map (·.value)

/-- The final value of an aggregate. -/
def result (s : Summary) (a : Aggregate) : Value :=
  let value := (s.value? a).getD .null
  match a.measure, a.field with
  | .avg, some field => value.average ((s.value? (.companion field)).getD .null)
  | _, _ => value

/-- Sets the results of aggregates in a record, less those of internal measures. -/
def writeResults (s : Summary) (requested : List Aggregate) (r : Record) : Record :=
  (requested.filter fun a => !a.measure.isInternal).foldl
    (fun r a => r.set a.outputName (s.result a)) r

end Summary

end StreamQuery
