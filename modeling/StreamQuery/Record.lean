import StreamQuery.Value
set_option autoImplicit false

/-!
# Records and batches

A record maps field names to values; a field that holds NULL is present.  A batch
is a list of records together with metadata about how they came to be.
-/

namespace StreamQuery

/-- A record of named fields. -/
structure Record where
  fields : Keyed String Value
  deriving Inhabited

namespace Record

/-- The record without fields. -/
def empty : Record := ⟨.empty⟩

/-- The record of a list of fields; of two fields of one name the later one counts. -/
def ofList (entries : List (String × Value)) : Record := ⟨.ofList entries⟩

/-- The value of a field. -/
def get? (r : Record) (name : String) : Option Value := r.fields.get? name

/-- Whether a field is present. -/
def has (r : Record) (name : String) : Bool := r.fields.contains name

/-- Sets a field. -/
def set (r : Record) (name : String) (v : Value) : Record := ⟨r.fields.insert name v⟩

/-- Takes a field out. -/
def remove (r : Record) (name : String) : Record := ⟨r.fields.erase name⟩

/-- Takes out every field whose name satisfies a test. -/
def removeAll (r : Record) (p : String → Bool) : Record := ⟨r.fields.filter fun e => !p e.1⟩

/-- The record with the fields of another one set on top of its own. -/
def merge (r other : Record) : Record :=
  other.fields.entries.foldl (fun r e => r.set e.1 e.2) r

/-- The number of fields. -/
def size (r : Record) : Nat := r.fields.size

/-- The names of the fields, ascending. -/
def names (r : Record) : List String := r.fields.keys

/-- The text of a record. -/
def text (r : Record) : String := Value.braced (Value.entryTexts r.fields.entries)

theorem get?_set_self (r : Record) (name : String) (v : Value) :
    (r.set name v).get? name = some v :=
  r.fields.get?_insert_self name v

theorem get?_set_of_ne (r : Record) {name other : String} (h : name ≠ other) (v : Value) :
    (r.set name v).get? other = r.get? other :=
  r.fields.get?_insert_of_ne h v

/-- Records with the same fields are equal. -/
theorem ext_get? {r s : Record} (h : ∀ name, r.get? name = s.get? name) : r = s := by
  obtain ⟨f⟩ := r
  obtain ⟨g⟩ := s
  exact congrArg Record.mk (Keyed.ext_get? h)

end Record

/-- An ordered batch of records with metadata. -/
structure Batch where
  records : List Record
  metadata : Keyed String Value
  deriving Inhabited

namespace Batch

/-- A batch without metadata. -/
def ofRecords (records : List Record) : Batch := ⟨records, .empty⟩

/-- The number of records. -/
def size (b : Batch) : Nat := b.records.length

/-- Whether there are no records. -/
def isEmpty (b : Batch) : Bool := b.records.isEmpty

/-- Adds a record at the end. -/
def push (b : Batch) (r : Record) : Batch := { b with records := b.records ++ [r] }

/-- The batch with other records and its own metadata. -/
def withRecords (b : Batch) (records : List Record) : Batch := { b with records }

/-- Keeps the records that satisfy a test. -/
def filter (b : Batch) (p : Record → Bool) : Batch := b.withRecords (b.records.filter p)

/-- Keeps the first records. -/
def take (b : Batch) (n : Nat) : Batch := b.withRecords (b.records.take n)

/-- Sets an entry of the metadata. -/
def setMetadata (b : Batch) (key : String) (v : Value) : Batch :=
  { b with metadata := b.metadata.insert key v }

/-- The text of a batch. -/
def text (b : Batch) : String :=
  "\x7brecords: [" ++ ", ".intercalate (b.records.map Record.text) ++ "], meta: "
    ++ Value.braced (Value.entryTexts b.metadata.entries) ++ "\x7d"

end Batch

end StreamQuery
