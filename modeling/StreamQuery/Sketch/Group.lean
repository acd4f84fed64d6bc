import StreamQuery.Aggregate.Json
import StreamQuery.Sketch
import StreamQuery.Value.Canonical
set_option autoImplicit false

/-!
# Sketches of groups

A group is a key and the summary of the records that have it.  Groups are sampled by
the hash of the key; where two groups of one hash meet, the summaries combine and
the key that was there first stays.
-/

namespace StreamQuery

/-- The records of one key. -/
structure Group where
  key : List Value
  summary : Summary
  deriving Inhabited

namespace Group

instance : Combine Group where
  combine g other := (g.summary.combine other.summary).within fun summary => { g with summary }

/-- A group as JSON. -/
def toJson (g : Group) : Json :=
  .ofMembers [("key", .array (g.key.map Value.toJson)), ("summary", g.summary.toJson)]

/-- Reads a group. -/
def ofJson? (j : Json) : Option Group :=
  match j.fields? [("key", .required), ("summary", .required)] with
  | some [some key, some summary] => do
    let key ← key.asList? Value.ofJson?
    let summary ← Summary.ofJson? summary
    return ⟨key, summary⟩
  | _ => none

instance : JsonForm Group := ⟨toJson, ofJson?⟩

end Group

/-- A sketch of groups. -/
structure GroupSketch where
  /-- The capacity that was asked for. -/
  capacity : Nat
  sketch : Sketch Group
  deriving Inhabited

namespace GroupSketch

/-- An empty sketch. -/
def new (capacity : Nat) : GroupSketch := ⟨capacity, Sketch.new capacity⟩

/-- Runs an operation of the sketch inside. -/
def lift {α : Type} (s : GroupSketch) (f : Sketch Group → Transition (Sketch Group) α) :
    Transition GroupSketch α :=
  (f s.sketch).within fun sketch => { s with sketch }

/-- Offers a group. -/
def add (s : GroupSketch) (g : Group) : Transition GroupSketch Unit :=
  s.lift fun sketch => (sketch.add (Value.hashTuple g.key) g).map fun _ => ()

/-- Offers all of a sketch given as bytes; the answer is the number of bytes read. -/
def unionBytes (s : GroupSketch) (bs : Bytes) : Transition GroupSketch Nat :=
  s.lift fun sketch => sketch.unionBytes bs

/-- The groups kept, in the order of the hashes of their keys. -/
def groups (s : GroupSketch) : Transition GroupSketch (List Group) :=
  s.lift fun sketch => sketch.result.map HashSample.values

/-- The accuracy of the groups. -/
def accuracy (s : GroupSketch) : Transition GroupSketch Accuracy :=
  s.lift fun sketch => sketch.accuracy

/-- The bytes of the groups. -/
def bytes (s : GroupSketch) : Transition GroupSketch Bytes := s.lift fun sketch => sketch.bytes

/-- Forgets all that was offered. -/
def reset (s : GroupSketch) : GroupSketch := { s with sketch := s.sketch.reset }

end GroupSketch

end StreamQuery
