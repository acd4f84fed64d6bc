import StreamQuery.Numeric.IntegerText
import StreamQuery.Record
set_option autoImplicit false

/-!
# Look-up

How a name finds its value in a record.  A field of exactly that name wins;
otherwise a name with dots is a path: its first segment names a field, and each
further segment is a key of a map or an index of a list.  A schema adds a check of
the kind to what is found.
-/

namespace StreamQuery

/-- A way to resolve a name against a record. -/
abbrev Lookup := String → Record → Outcome Value

/-- The segments of a name between its dots; a name without dots is one segment. -/
def splitDots : List Char → List (List Char)
  | [] => [[]]
  | c :: rest =>
    if c = '.' then [] :: splitDots rest
    else match splitDots rest with
      | segment :: more => (c :: segment) :: more
      | [] => [[c]]

/-- Follows the segments of a path into a value. -/
def Value.follow : Value → List String → Except LookupFault Value
  | v, [] => .ok v
  | map entries, segment :: rest =>
    match Keyed.findEntry segment entries with
    | some v => v.follow rest
    | none => .error (.noKey segment)
  | list items, segment :: rest =>
    match (Numeric.readWord64? segment.toList).bind fun i => items[i]? with
    | some v => v.follow rest
    | none => .error (.noIndex segment)
  | v, _ :: _ => .error (.notIndexable v.kind)

namespace Record

/-- Follows a path that starts at a field. -/
def follow (r : Record) (head : String) (path : List String) : Except LookupFault Value :=
  match r.get? head with
  | some v => v.follow path
  | none => .error .absent

/-- Resolves a name against a record alone. -/
def lookup : Lookup := fun name r =>
  match r.get? name with
  | some v => .ok v
  | none =>
    match splitDots name.toList with
    | head :: next :: rest =>
      (r.follow (String.ofList head) ((next :: rest).map String.ofList)).mapError (.lookup name)
    | _ => .error (.lookup name .absent)

end Record

/-- The declared kinds of fields. -/
structure Schema where
  kinds : Keyed String Kind
  deriving Inhabited

namespace Schema

/-- The schema of a list of declarations; of two for one field the later one counts. -/
def ofList (kinds : List (String × Kind)) : Schema := ⟨.ofList kinds⟩

/-- The declared kind of a field. -/
def kind? (s : Schema) (field : String) : Option Kind := s.kinds.get? field

/-- Resolves a name and checks its value against the declaration of that name.  NULL is of every
declared kind. -/
def lookup (s : Schema) : Lookup := fun name r => do
  let v ← Record.lookup name r
  match s.kind? name with
  | some declared =>
    if v.isNull ∨ v.kind = declared then .ok v
    else .error (.lookup name (.kindDiffers declared v.kind))
  | none => .ok v

end Schema

end StreamQuery
