import StreamQuery.Error
import StreamQuery.Text.Blank
import StreamQuery.Text.Letter
set_option autoImplicit false

/-!
# Aggregates

An aggregate is a measure over a field with the name of its output.  Two aggregates
are the same accumulator when measure and field agree; the name is a label only.
-/

namespace StreamQuery

/-- A measure over a field, under an output name. -/
structure Aggregate where
  measure : Measure
  field : Option String
  name : Option String
  deriving DecidableEq, Repr, Inhabited

namespace Measure

/-- Reads the name of a measure that may be requested, among blanks and in any case. -/
def parse (text : String) : Outcome Measure :=
  match Text.upperAscii (Text.trim text) with
  | "COUNT" => .ok count
  | "SUM" => .ok sum
  | "MIN" => .ok min
  | "MAX" => .ok max
  | "AVG" => .ok avg
  | other => .error (.configuration (.unknownMeasure other))

end Measure

namespace Aggregate

/-- A text that is not blank. -/
def nonBlank (text : Option String) : Option String :=
  text.filter fun s => !Text.isBlankText s

/-- Builds an aggregate that a query requests.  Every measure but the record count needs a field,
every aggregate needs an output name, and internal measures cannot be requested. -/
def request (measure : Measure) (field name : Option String) : Outcome Aggregate :=
  if measure.isInternal then .error (.configuration (.internalMeasure measure))
  else if measure.requiresField ∧ nonBlank field = none then
    .error (.configuration (.measureWithoutField measure))
  else match nonBlank name with
    | none => .error (.configuration (.measureWithoutName measure))
    | some name => .ok ⟨measure, if measure.requiresField then nonBlank field else none, some name⟩

/-- The count that accompanies an average over a field. -/
def companion (field : String) : Aggregate := ⟨.countField, some field, none⟩

/-- Whether two aggregates are the same accumulator. -/
def sameAs (a b : Aggregate) : Bool := a.measure == b.measure && a.field == b.field

/-- The name of the output. -/
def outputName (a : Aggregate) : String := a.name.getD a.measure.name

/-- The text of an aggregate. -/
def text (a : Aggregate) : String :=
  a.measure.name ++ "(" ++ a.field.getD "*" ++ ")" ++
    match a.name with
    | some name => " AS " ++ name
    | none => ""

/-- Adds an accumulator unless it is there. -/
def addTo (present : List Aggregate) (a : Aggregate) : List Aggregate :=
  if present.any a.sameAs then present else present ++ [a]

/-- The accumulators that an aggregate needs: itself, and for an average the count of its field. -/
def needed (a : Aggregate) : List Aggregate :=
  match a.measure, a.field with
  | .avg, some field => [a, companion field]
  | _, _ => [a]

/-- The accumulators that answer all of some aggregates, each once, in the order of first need. -/
def accumulators (requested : List Aggregate) : List Aggregate :=
  (requested.flatMap needed).foldl addTo []

theorem sameAs_refl (a : Aggregate) : a.sameAs a = true := by
  simp [sameAs]

theorem sameAs_iff {a b : Aggregate} :
    a.sameAs b = true ↔ a.measure = b.measure ∧ a.field = b.field := by
  simp [sameAs]

end Aggregate

end StreamQuery
