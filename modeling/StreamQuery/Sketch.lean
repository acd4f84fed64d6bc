import StreamQuery.Sketch.Accuracy
import StreamQuery.Sketch.Encoding
import StreamQuery.Sketch.Parts
set_option autoImplicit false

/-!
# Sketches

A sketch takes values under hashes, and other sketches as bytes, and is read through
the one sample that all of them make together.
-/

namespace StreamQuery

/-- A lazily merged sketch of samples. -/
abbrev Sketch (α : Type) := Lazy (SampleParts α)

namespace Sketch

variable {α : Type}

/-- An empty sketch. -/
def new (capacity : Nat) : Sketch α := Lazy.new (.new (.new capacity))

variable [Combine α]

/-- Offers a value under a hash; the answer is whether the hash was kept among the updates. -/
def add (s : Sketch α) (hash : UInt64) (a : α) : Transition (Sketch α) Bool :=
  s.update fun p => (p.updates.add hash a).within fun updates => { p with updates }

/-- Offers all of a sketch given as bytes; the answer is the number of bytes read. -/
def unionBytes [JsonForm α] (s : Sketch α) (bs : Bytes) : Transition (Sketch α) Nat :=
  s.union fun p => (p.unions.unionBytes bs).within fun unions => { p with unions }

/-- The sample of all that was offered. -/
def result (s : Sketch α) : Transition (Sketch α) (HashSample α) :=
  s.read.mapOutcome fun p =>
    match p.result with
    | some r => .ok r
    | none => .error (.sketch .noResult)

/-- The accuracy of the result. -/
def accuracy (s : Sketch α) : Transition (Sketch α) Accuracy := s.result.map HashSample.accuracy

/-- The bytes of the result. -/
def bytes [JsonForm α] (s : Sketch α) : Transition (Sketch α) Bytes :=
  s.result.mapOutcome HashSample.toBytes

end Sketch

/-- A sketch that counts distinct hashes. -/
abbrev DistinctSketch := Sketch Unit

/-- The estimated number of distinct hashes. -/
def DistinctSketch.estimate (s : DistinctSketch) : Transition DistinctSketch Numeric.Double :=
  Transition.map HashSample.estimate (Sketch.result s)

end StreamQuery
