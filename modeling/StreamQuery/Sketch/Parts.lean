import StreamQuery.Sketch.Lazy
import StreamQuery.Sketch.Sample
set_option autoImplicit false

/-!
# The parts of a sketch

A sketch keeps one sample for updates, one for unions, and the sample that the last
merge left as the result.  A merge empties the working samples into the result; the
result of the merge before goes into the unions first, so nothing is lost between
reads.
-/

namespace StreamQuery

/-- The samples of a sketch. -/
structure SampleParts (α : Type) where
  updates : HashSample α
  unions : HashSample α
  result : Option (HashSample α)
  /-- What a working sample is after a merge. -/
  blank : HashSample α
  deriving Inhabited

namespace SampleParts

variable {α : Type}

/-- The samples of a sketch to which nothing was offered. -/
def new (blank : HashSample α) : SampleParts α := ⟨blank, blank, none, blank⟩

/-- The updates become the result. -/
def publishUpdates (p : SampleParts α) : SampleParts α :=
  { p with updates := p.blank, result := some p.updates }

/-- The unions become the result. -/
def publishUnions (p : SampleParts α) : SampleParts α :=
  { p with unions := p.blank, result := some p.unions }

/-- Forgets all. -/
def reset (p : SampleParts α) : SampleParts α :=
  { p with updates := p.updates.clear, unions := p.unions.clear, result := none }

variable [Combine α]

/-- Merges a sample into the unions. -/
def mergeIntoUnions (p : SampleParts α) (s : HashSample α) : Transition (SampleParts α) Unit :=
  (p.unions.merge s).within fun unions => { p with unions }

/-- Takes the updates into the unions, which become the result. -/
def mergeBoth (p : SampleParts α) : Transition (SampleParts α) Unit :=
  ({ p with updates := p.blank }.mergeIntoUnions p.updates).andThen fun _ p =>
    .done () p.publishUnions

/-- Takes a present result back into the unions. -/
def foldResult (p : SampleParts α) : Transition (SampleParts α) Bool :=
  match p.result with
  | some s => ({ p with result := none }.mergeIntoUnions s).map fun _ => true
  | none => .done false p

instance : Merging (SampleParts α) where
  mergeBoth := mergeBoth
  mergeUpdates p := .done () p.publishUpdates
  mergeUnions p := .done () p.publishUnions
  foldResult := foldResult
  reset := reset

end SampleParts

end StreamQuery
