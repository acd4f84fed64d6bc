import StreamQuery.Bytes.Frame
import StreamQuery.Json.Form
import StreamQuery.Sketch.Sample
set_option autoImplicit false

/-!
# Samples as bytes

A sample travels as one frame whose payload is its JSON text.  The entries are an
object with the hashes as names, ascending; on reading any order will do, and of two
entries for one hash the later one counts.
-/

namespace StreamQuery.HashSample

variable {α : Type} [JsonForm α]

/-- A sample as JSON. -/
def toJson (s : HashSample α) : Json :=
  .ofMembers [("capacity", .ofNat s.capacity), ("theta", .ofNat s.bound.toNat),
    ("entries", .object
      (s.entries.entries.map fun e => (JsonForm.wordName e.1, JsonForm.toJson e.2)))]

/-- Reads an entry of a sample. -/
def entryOfJson? (member : Bytes × Json) : Option (UInt64 × α) := do
  let hash ← JsonForm.wordOfName? member.1
  let a ← JsonForm.ofJson? member.2
  return (hash, a)

/-- Reads a sample.  Whatever capacity, bound and entries stand there are taken as they are. -/
def ofJson? (j : Json) : Option (HashSample α) :=
  match j.fields? [("capacity", .required), ("theta", .required), ("entries", .required)] with
  | some [some capacity, some bound, some entries] => do
    let capacity ← capacity.asNat?
    let bound ← bound.asNat?
    let members ← entries.asObject?
    let entries ← members.mapM entryOfJson?
    return ⟨capacity, UInt64.ofNat bound, .ofList entries⟩
  | _ => none

/-- The bytes of a sample. -/
def toBytes (s : HashSample α) : Outcome Bytes := Bytes.frame s.toJson.bytes

/-- Reads a sample from the front of a byte string; the answer has also the number of bytes read. -/
def ofBytes (bs : Bytes) : Outcome (HashSample α × Nat) := do
  let (payload, used) ← Bytes.unframe bs
  match (Json.parseBytes payload).bind ofJson? with
  | some s => .ok (s, used)
  | none => .error (.sketch .undecodable)

/-- Offers all of a sample at the front of a byte string; the answer is the number of bytes read. -/
def unionBytes [Combine α] (s : HashSample α) (bs : Bytes) : Transition (HashSample α) Nat :=
  match ofBytes bs with
  | .ok (other, used) => (s.merge other).map fun _ => used
  | .error e => .fail e s

end StreamQuery.HashSample
