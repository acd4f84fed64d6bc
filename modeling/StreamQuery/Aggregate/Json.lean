import StreamQuery.Aggregate.Summary
import StreamQuery.Value.Json
set_option autoImplicit false

/-!
# Aggregates and summaries in JSON
-/

namespace StreamQuery

/-- An aggregate as JSON. -/
def Aggregate.toJson (a : Aggregate) : Json :=
  .ofMembers [("op_type", .ofString a.measure.name), ("field", .ofOption .ofString a.field),
    ("name", .ofOption .ofString a.name)]

/-- A text that may be null or left out. -/
def readOptionalText : Option Json → Option (Option String)
  | none => some none
  | some j => j.asOptional? Json.asString?

/-- Reads an aggregate as it stands, internal and nameless ones included. -/
def Aggregate.ofJson? (j : Json) : Option Aggregate :=
  match j.fields? [("op_type", .required), ("field", .nullable), ("name", .nullable)] with
  | some [some measure, field, name] => do
    let measure ← measure.asName? .direct Measure.ofName?
    let field ← readOptionalText field
    let name ← readOptionalText name
    return ⟨measure, field, name⟩
  | _ => none

/-- A metric as JSON. -/
def Metric.toJson (m : Metric) : Json :=
  .ofMembers [("operation", m.aggregate.toJson), ("value", m.value.toJson)]

/-- Reads a metric. -/
def Metric.ofJson? (j : Json) : Option Metric :=
  match j.fields? [("operation", .required), ("value", .required)] with
  | some [some aggregate, some value] => do
    let aggregate ← Aggregate.ofJson? aggregate
    let value ← Value.ofJson? value
    return ⟨aggregate, value⟩
  | _ => none

/-- A summary as JSON. -/
def Summary.toJson (s : Summary) : Json :=
  .ofMembers [("metrics", .array (s.metrics.map Metric.toJson))]

/-- Reads a summary. -/
def Summary.ofJson? (j : Json) : Option Summary :=
  match j.fields? [("metrics", .required)] with
  | some [some metrics] => (metrics.asList? Metric.ofJson?).map Summary.mk
  | _ => none

end StreamQuery
