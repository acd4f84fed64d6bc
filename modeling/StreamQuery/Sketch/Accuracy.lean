import StreamQuery.Record
import StreamQuery.Sketch.Sample
set_option autoImplicit false

/-!
# Accuracy

What is known about the accuracy of a result that was read from a sample, and how a
batch of results tells it.
-/

namespace StreamQuery

/-- How far the result of a sketch can be trusted. -/
structure Accuracy where
  /-- Values were dropped, so that the result is an estimate. -/
  estimated : Bool
  /-- The share of all hashes that were admitted. -/
  fraction : Numeric.Double
  /-- The number of values kept. -/
  retained : Nat
  standardError : Numeric.Double

/-- The accuracy of what is read from a sample. -/
def HashSample.accuracy {α : Type} (s : HashSample α) : Accuracy :=
  ⟨s.isEstimating, s.fraction, s.retained, s.standardError⟩

namespace Accuracy

/-- The entries of metadata that tell the accuracy. -/
def metadata (a : Accuracy) : List (String × Value) :=
  [("estimated", .boolean a.estimated), ("theta", .double a.fraction),
    ("retained", .long (Int64.ofNat a.retained)), ("standard_error", .double a.standardError)]

/-- Tells the accuracy of a batch in its metadata. -/
def describe (a : Accuracy) (b : Batch) : Batch :=
  a.metadata.foldl (fun b e => b.setMetadata e.1 e.2) b

end Accuracy

end StreamQuery
