import StreamQuery.Json.Number
set_option autoImplicit false

/-!
# Reading data from JSON

How the parts of declarations and sketches are found in a JSON value.  A structure
is an object or an array of its fields in order.  The names of an object must be
texts; a member that is not known does not count, and nothing is asked of its value.
-/

namespace StreamQuery.Json

/-! ## Scalars -/

/-- A text. -/
def asString? : Json → Option String
  | string lexeme => decodeText? lexeme
  | _ => none

/-- A truth value. -/
def asBool? : Json → Option Bool
  | boolean b => some b
  | _ => none

/-- An integer of 64 bits, signed or not. -/
def asInt? : Json → Option Int
  | number lexeme => lexemeInt? lexeme
  | _ => none

/-- An integer within bounds. -/
def asIntIn? (lo hi : Int) (j : Json) : Option Int :=
  j.asInt?.filter fun n => decide (lo ≤ n ∧ n ≤ hi)

/-- A natural number of 64 bits. -/
def asNat? (j : Json) : Option Nat := (j.asIntIn? 0 (2 ^ 64 - 1)).map Int.toNat

/-- A 32-bit integer. -/
def asInt32? (j : Json) : Option Int32 := (j.asIntIn? (-2 ^ 31) (2 ^ 31 - 1)).map Int32.ofInt

/-- A 64-bit integer. -/
def asInt64? (j : Json) : Option Int64 := (j.asIntIn? (-2 ^ 63) (2 ^ 63 - 1)).map Int64.ofInt

/-- A double precision number. -/
def asDouble? : Json → Option Numeric.Double
  | number lexeme => lexemeDouble? lexeme
  | _ => none

/-- A single precision number. -/
def asSingle? : Json → Option Numeric.Single
  | number lexeme => lexemeSingle? lexeme
  | _ => none

/-- The items of an array. -/
def asArray? : Json → Option (List Json)
  | array items => some items
  | _ => none

/-- The members of an object, with their names as they are written. -/
def asObject? : Json → Option (List (Bytes × Json))
  | object members => some members
  | _ => none

/-- A member whose name is a text. -/
def named? (member : Bytes × Json) : Option (String × Json) :=
  (decodeText? member.1).map fun name => (name, member.2)

/-- The members of an object whose names are texts. -/
def asMembers? (j : Json) : Option (List (String × Json)) := j.asObject?.bind (·.mapM named?)

/-- Null, or a value of a kind. -/
def asOptional? {α : Type} (read : Json → Option α) : Json → Option (Option α)
  | null => some none
  | j => (read j).map some

/-- A list of values of a kind. -/
def asList? {α : Type} (read : Json → Option α) (j : Json) : Option (List α) :=
  j.asArray?.bind (·.mapM read)

/-- A text, as JSON. -/
def ofString (s : String) : Json := string (encodeText s)

/-- An optional value, as JSON. -/
def ofOption {α : Type} (write : α → Json) : Option α → Json
  | none => null
  | some a => write a

/-- An object with the given members. -/
def ofMembers (members : List (String × Json)) : Json :=
  object (members.map fun m => (encodeText m.1, m.2))

/-! ## Structures -/

/-- When a field may be left out. -/
inductive Presence where
  /-- Never. -/
  | required
  /-- In an object, where it then reads as null. -/
  | nullable
  /-- Anywhere. -/
  | optional
  deriving DecidableEq, Repr

/-- The contents of the members of one name. -/
def membersNamed (name : String) (members : List (String × Json)) : List Json :=
  (members.filter fun m => m.1 == name).map (·.2)

/-- The fields of a structure written as an object: none may stand twice. -/
def objectFields? (fields : List (String × Presence)) (members : List (String × Json)) :
    Option (List (Option Json)) :=
  fields.mapM fun field =>
    match membersNamed field.1 members with
    | [j] => some (some j)
    | [] => if field.2 = .required then none else some none
    | _ => none

/-- The fields of a structure written as an array. -/
def arrayFields? : List (String × Presence) → List Json → Option (List (Option Json))
  | [], [] => some []
  | [], _ :: _ => none
  | (_, presence) :: fields, [] =>
    if presence = .optional then (arrayFields? fields []).map (none :: ·) else none
  | _ :: fields, j :: rest => (arrayFields? fields rest).map (some j :: ·)

/-- The fields of a structure that is only ever written as an object. -/
def namedFields? (fields : List (String × Presence)) (j : Json) : Option (List (Option Json)) :=
  j.asMembers?.bind (objectFields? fields)

/-- The fields of a structure, in the order of their declaration. -/
def fields? (fields : List (String × Presence)) : Json → Option (List (Option Json))
  | array items => arrayFields? fields items
  | j => j.namedFields? fields

/-! ## Parts are smaller than the whole

What is found inside a value is smaller than it, so reading a tree of alternatives and structures
comes to an end. -/

/-- What a list of readings holds was read from an item. -/
theorem mem_of_mapM {α β : Type} {f : α → Option β} {as : List α} {bs : List β} {b : β}
    (h : as.mapM f = some bs) (hb : b ∈ bs) : ∃ a ∈ as, f a = some b := by
  induction as generalizing bs with
  | nil =>
    simp only [List.mapM_nil, Option.pure_def, Option.some.injEq] at h
    subst h
    cases hb
  | cons a as ih =>
    simp only [List.mapM_cons, Option.pure_def, Option.bind_eq_bind, Option.bind_eq_some_iff,
      Option.some.injEq] at h
    obtain ⟨b', hb', rest, hrest, rfl⟩ := h
    rcases List.mem_cons.1 hb with rfl | hb
    · exact ⟨a, List.mem_cons_self, hb'⟩
    · obtain ⟨a', ha', h'⟩ := ih hrest hb
      exact ⟨a', List.mem_cons_of_mem _ ha', h'⟩

/-- A member is smaller than the object that has it. -/
theorem sizeOf_lt_of_mem_asMembers? {j c : Json} {members : List (String × Json)} {name : String}
    (h : j.asMembers? = some members) (hc : (name, c) ∈ members) : sizeOf c < sizeOf j := by
  cases j with
  | object raw =>
    obtain ⟨m, hm, hn⟩ := mem_of_mapM h hc
    obtain ⟨text, -, he⟩ := Option.map_eq_some_iff.1 hn
    cases he
    have h1 := List.sizeOf_lt_of_mem hm
    obtain ⟨n, c⟩ := m
    simp only [object.sizeOf_spec, Prod.mk.sizeOf_spec] at *
    omega
  | _ => cases h

theorem mem_of_objectFields? {fields : List (String × Presence)}
    {members : List (String × Json)} {found : List (Option Json)} {c : Json}
    (h : objectFields? fields members = some found) (hc : some c ∈ found) :
    ∃ name, (name, c) ∈ members := by
  obtain ⟨field, -, hf⟩ := mem_of_mapM h hc
  split at hf
  · rename_i j hj
    cases hf
    have : c ∈ membersNamed field.1 members := by simp [hj]
    obtain ⟨m, hm, rfl⟩ := List.mem_map.1 this
    exact ⟨m.1, (List.mem_filter.1 hm).1⟩
  · split at hf <;> cases hf
  · cases hf

theorem mem_of_arrayFields? {fields : List (String × Presence)} {items : List Json}
    {found : List (Option Json)} {c : Json}
    (h : arrayFields? fields items = some found) (hc : some c ∈ found) : c ∈ items := by
  induction fields generalizing items found with
  | nil =>
    cases items with
    | nil =>
      cases h
      cases hc
    | cons j rest => cases h
  | cons f fs ih =>
    cases items with
    | nil =>
      simp only [arrayFields?] at h
      split at h
      · obtain ⟨rest, hrest, rfl⟩ := Option.map_eq_some_iff.1 h
        rcases List.mem_cons.1 hc with hc | hc
        · cases hc
        · exact ih hrest hc
      · cases h
    | cons j rest =>
      obtain ⟨more, hmore, rfl⟩ := Option.map_eq_some_iff.1 h
      rcases List.mem_cons.1 hc with hc | hc
      · cases hc
        exact List.mem_cons_self
      · exact List.mem_cons_of_mem _ (ih hmore hc)

/-- A field is smaller than the object that has it. -/
theorem sizeOf_lt_of_namedFields? {fields : List (String × Presence)} {j c : Json}
    {found : List (Option Json)} (h : j.namedFields? fields = some found)
    (hc : some c ∈ found) : sizeOf c < sizeOf j := by
  obtain ⟨members, hm, h⟩ := Option.bind_eq_some_iff.1 h
  obtain ⟨name, hn⟩ := mem_of_objectFields? h hc
  exact sizeOf_lt_of_mem_asMembers? hm hn

/-- A field is smaller than the structure that has it. -/
theorem sizeOf_lt_of_fields? {fields : List (String × Presence)} {j c : Json}
    {found : List (Option Json)} (h : j.fields? fields = some found) (hc : some c ∈ found) :
    sizeOf c < sizeOf j := by
  unfold fields? at h
  split at h
  · have := List.sizeOf_lt_of_mem (mem_of_arrayFields? h hc)
    simp only [array.sizeOf_spec]
    omega
  · exact sizeOf_lt_of_namedFields? h hc

end StreamQuery.Json
