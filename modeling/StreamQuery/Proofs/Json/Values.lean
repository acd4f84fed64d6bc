import StreamQuery.Proofs.Json.Fractions
import StreamQuery.Proofs.Json.Structures
import StreamQuery.Proofs.Keyed
import StreamQuery.Value.Json
set_option autoImplicit false

/-!
# Reading back values

Every value can be written, but not every value is read back as it was.  A floating-point number
that is not finite is written as null and not read; a finite one is read as the number that its text
denotes to the reader.  A list or a map is read if there is room for it, and for its parts inside.
-/

namespace StreamQuery

namespace Value

/-! ## Writing -/

theorem itemsToJson_eq_map (items : List Value) : itemsToJson items = items.map toJson := by
  induction items with
  | nil => rfl
  | cons v rest ih => rw [itemsToJson, ih, List.map_cons]

theorem entriesToJson_eq_map (entries : List (String × Value)) :
    entriesToJson entries = entries.map fun e => (Json.encodeText e.1, e.2.toJson) := by
  induction entries with
  | nil => rfl
  | cons e rest ih => rw [entriesToJson, ih, List.map_cons]

mutual

/-- Every value can be written. -/
theorem exists_written : ∀ v : Value, ∃ n, Json.Written n v.toJson
  | null => ⟨0, Json.written_ofString _ _⟩
  | boolean b => ⟨1, Json.written_ofMember _ (.boolean b)⟩
  | integer n => ⟨1, Json.written_ofMember _ (Json.written_ofInt _ _)⟩
  | long n => ⟨1, Json.written_ofMember _ (Json.written_ofInt _ _)⟩
  | float x => ⟨1, Json.written_ofMember _ (Json.written_ofSingle _ x)⟩
  | double x => ⟨1, Json.written_ofMember _ (Json.written_ofDouble _ x)⟩
  | string s => ⟨1, Json.written_ofMember _ (Json.written_ofString _ s)⟩
  | list items => by
    obtain ⟨n, hn⟩ := Json.exists_written (exists_written_items items)
    refine ⟨n + 2, Json.written_ofMember _ ?_⟩
    rw [itemsToJson_eq_map]
    exact Json.written_array hn
  | map entries => by
    obtain ⟨n, hn⟩ := Json.exists_written (exists_written_entries entries)
    refine ⟨n + 2, Json.written_ofMember _ ?_⟩
    rw [entriesToJson_eq_map]
    refine .object ?_ ?_
    · intro m hm
      obtain ⟨e, -, rfl⟩ := List.mem_map.1 hm
      exact Json.quotable_encodeText e.1
    · intro m hm
      obtain ⟨e, he, rfl⟩ := List.mem_map.1 hm
      exact hn e he

theorem exists_written_items : ∀ items : List Value,
    ∀ v ∈ items, ∃ n, Json.Written n v.toJson
  | [] => nofun
  | v :: rest => List.forall_mem_cons.2 ⟨exists_written v, exists_written_items rest⟩

theorem exists_written_entries : ∀ entries : List (String × Value),
    ∀ e ∈ entries, ∃ n, Json.Written n e.2.toJson
  | [] => nofun
  | (_, v) :: rest => List.forall_mem_cons.2 ⟨exists_written v, exists_written_entries rest⟩

end

/-! ## Reading -/

/-- The values whose text says all of them: NULL, truth values, integers and texts. -/
def IsExact : Value → Prop
  | null | boolean _ | integer _ | long _ | string _ => True
  | float _ | double _ | list _ | map _ => False

theorem IsExact.written {v : Value} (h : v.IsExact) (n : Nat) : Json.Written (n + 1) v.toJson := by
  cases v with
  | null => exact Json.written_ofString _ _
  | boolean b => exact Json.written_ofMember _ (.boolean b)
  | integer n => exact Json.written_ofMember _ (Json.written_ofInt _ _)
  | long n => exact Json.written_ofMember _ (Json.written_ofInt _ _)
  | string s => exact Json.written_ofMember _ (Json.written_ofString _ _)
  | _ => exact h.elim

/-- An alternative whose content has no parts is read by its kind. -/
theorem ofJson?_ofVariant (kind : Kind) {content : Json} (harray : ∀ items, content ≠ .array items)
    (hobject : ∀ members, content ≠ .object members) :
    ofJson? (.ofVariant kind.declaredName content) = scalarOfJson? kind content := by
  have hname := Json.decodeText?_encodeText kind.declaredName
  cases content with
  | array items => exact absurd rfl (harray items)
  | object members => exact absurd rfl (hobject members)
  | _ =>
    simp only [Json.ofVariant, Json.ofMembers, List.map_cons, List.map_nil, ofJson?, hname,
      Kind.ofDeclaredName?_declaredName, Option.bind_eq_bind, Option.bind_some]

theorem IsExact.read {v : Value} (h : v.IsExact) : ofJson? v.toJson = some v := by
  cases v with
  | null => simp only [toJson, Json.ofString, ofJson?, Json.decodeText?_encodeText, if_true]
  | boolean b => exact ofJson?_ofVariant .boolean (by rintro _ ⟨⟩) (by rintro _ ⟨⟩)
  | integer n =>
    rw [toJson, show "Integer" = Kind.declaredName .integer from rfl,
      ofJson?_ofVariant .integer (by rintro _ ⟨⟩) (by rintro _ ⟨⟩), scalarOfJson?,
      Json.asInt32?_ofInt]
    rfl
  | long n =>
    rw [toJson, show "Long" = Kind.declaredName .long from rfl,
      ofJson?_ofVariant .long (by rintro _ ⟨⟩) (by rintro _ ⟨⟩), scalarOfJson?, Json.asInt64?_ofInt]
    rfl
  | string s =>
    rw [toJson, show "String" = Kind.declaredName .string from rfl,
      ofJson?_ofVariant .string (by rintro _ ⟨⟩) (by rintro _ ⟨⟩), scalarOfJson?,
      Json.asString?_ofString]
    rfl
  | _ => exact h.elim

theorem itemsOfJson?_eq_mapM (items : List Json) : itemsOfJson? items = items.mapM ofJson? := by
  induction items with
  | nil => rfl
  | cons j rest ih =>
    rw [itemsOfJson?, ih, List.mapM_cons]

/-- An entry of a map is read if its name and its value are. -/
theorem entriesOfJson?_map (content : Value → Json) (entries : List (String × Value)) :
    entriesOfJson? (entries.map fun e => (Json.encodeText e.1, content e.2))
      = entries.mapM fun e => (ofJson? (content e.2)).map fun v => (e.1, v) := by
  induction entries with
  | nil => rfl
  | cons e rest ih =>
    rw [List.map_cons, List.mapM_cons, entriesOfJson?, Json.decodeText?_encodeText, ih]
    cases ofJson? (content e.2) <;> rfl

/-! ## Reading back -/

/-- What is read from the text of a value where there is room for so many containers inside one
another. -/
def readBack (room : Nat) (v : Value) : Option Value := ofJson? (v.toJson.cut room)

theorem IsExact.readBack {v : Value} (h : v.IsExact) (room : Nat) :
    v.readBack (room + 1) = some v := by
  rw [Value.readBack, (h.written 0).cut_eq (by omega), h.read]

/-- NULL needs no room. -/
theorem readBack_null (room : Nat) : null.readBack room = some null :=
  IsExact.read (show null.IsExact from trivial)

/-- A value without parts is read from its content. -/
theorem readBack_of_scalar {v : Value} (kind : Kind) {content : Json}
    (hv : v.toJson = .ofVariant kind.declaredName content) (h : Json.Written 0 content)
    (room : Nat) : v.readBack (room + 1) = scalarOfJson? kind content := by
  have hshallow : Json.Written 1 (.ofVariant kind.declaredName content) :=
    Json.written_ofMember _ h
  rw [readBack, hv, hshallow.cut_eq (by omega)]
  refine ofJson?_ofVariant kind ?_ ?_
  · rintro items rfl
    cases h
  · rintro members rfl
    cases h

/-- A single precision number is read as the number that its text denotes. -/
theorem readBack_float (room : Nat) (x : Numeric.Single) :
    (float x).readBack (room + 1) = (Json.ofSingle x).asSingle?.map float :=
  readBack_of_scalar .float rfl (Json.written_ofSingle 0 x) room

/-- So is a double precision number. -/
theorem readBack_double (room : Nat) (x : Numeric.Double) :
    (double x).readBack (room + 1) = (Json.ofDouble x).asDouble?.map double :=
  readBack_of_scalar .double rfl (Json.written_ofDouble 0 x) room

/-- A list is read if all its items are, with two containers less of room. -/
theorem readBack_list (room : Nat) (items : List Value) :
    (list items).readBack (room + 2) = (items.mapM (Value.readBack room)).map list := by
  have hcut : (list items).toJson.cut (room + 2)
      = .object [(Json.encodeText "List", .array (items.map fun v => v.toJson.cut room))] := by
    rw [toJson, itemsToJson_eq_map, Json.ofVariant, Json.cut_ofMembers, Json.ofMembers]
    simp only [List.map_cons, List.map_nil, Json.cut_array, List.map_map, Function.comp_def]
  rw [readBack, hcut, ofJson?, if_pos (Json.decodeText?_encodeText _), itemsOfJson?_eq_mapM,
    List.mapM_map]
  rfl

/-- A map is read if all its values are. -/
theorem readBack_map (room : Nat) (entries : List (String × Value)) :
    (map entries).readBack (room + 2)
      = (entries.mapM fun (e : String × Value) => (e.2.readBack room).map fun v => (e.1, v)).map
          fun es => ofKeyed (.ofList es) := by
  have hcut : (map entries).toJson.cut (room + 2)
      = .object [(Json.encodeText "Map",
          .object (entries.map fun e => (Json.encodeText e.1, e.2.toJson.cut room)))] := by
    rw [toJson, entriesToJson_eq_map, Json.ofVariant, Json.cut_ofMembers, Json.ofMembers]
    simp only [List.map_cons, List.map_nil, Json.cut_object, List.map_map, Function.comp_def]
  rw [readBack, hcut, ofJson?, if_pos (Json.decodeText?_encodeText _),
    entriesOfJson?_map fun v => v.toJson.cut room]
  rfl

/-- Without room for two containers neither a list nor a map is read. -/
theorem readBack_of_narrow {room : Nat} (h : room < 2) {v : Value} {name : String} {content : Json}
    (hv : v.toJson = .ofVariant name content) (hcontent : content.cut 0 = .tooDeep)
    (hname : Kind.ofDeclaredName? name = some .list ∨ Kind.ofDeclaredName? name = some .map) :
    v.readBack room = none := by
  match room, h with
  | 0, _ => rw [readBack, hv]; rfl
  | 1, _ =>
    have hcut : v.toJson.cut 1 = .object [(Json.encodeText name, .tooDeep)] := by
      rw [hv, Json.ofVariant, Json.cut_ofMembers, List.map_singleton, hcontent]
      rfl
    rw [readBack, hcut]
    simp only [ofJson?, Json.decodeText?_encodeText, Option.bind_eq_bind, Option.bind_some]
    rcases hname with hname | hname <;> rw [hname] <;> rfl

/-! ## Values that are read -/

/-- Values that are read where there is room for so many containers: those whose text says all of
them, numbers whose text the reader takes for a number, and lists and maps of such values. -/
inductive Legible : Nat → Value → Prop where
  | null {room : Nat} : Legible room null
  | exact {room : Nat} {v : Value} : v.IsExact → Legible (room + 1) v
  | float {room : Nat} {x : Numeric.Single} :
    (Json.ofSingle x).asSingle?.isSome = true → Legible (room + 1) (float x)
  | double {room : Nat} {x : Numeric.Double} :
    (Json.ofDouble x).asDouble?.isSome = true → Legible (room + 1) (double x)
  | list {room : Nat} {items : List Value} :
    (∀ v ∈ items, Legible room v) → Legible (room + 2) (list items)
  | map {room : Nat} {entries : List (String × Value)} :
    (∀ e ∈ entries, Legible room e.2) → Legible (room + 2) (map entries)

/-- A value without parts that has a text is read wherever there is room for an alternative. -/
theorem isSome_readBack_iff_of_isExact (v : Value) (h : v.IsExact) (hnull : v ≠ null)
    (hshape : ∃ kind content, v.toJson = .ofVariant kind content) (room : Nat) :
    (v.readBack room).isSome = true ↔ Legible room v := by
  cases room with
  | zero =>
    obtain ⟨kind, content, hv⟩ := hshape
    have hnone : v.readBack 0 = none := by rw [readBack, hv]; rfl
    rw [hnone]
    refine ⟨nofun, fun hlegible => ?_⟩
    cases hlegible
    exact absurd rfl hnull
  | succ room =>
    rw [h.readBack]
    exact ⟨fun _ => .exact h, fun _ => rfl⟩

mutual

/-- A value is read exactly if it is legible. -/
theorem isSome_readBack_iff : ∀ (v : Value) (room : Nat),
    (v.readBack room).isSome = true ↔ Legible room v
  | null, room => by
    rw [readBack_null]
    exact ⟨fun _ => .null, fun _ => rfl⟩
  | boolean b, room => isSome_readBack_iff_of_isExact (boolean b) trivial nofun ⟨_, _, rfl⟩ room
  | integer n, room => isSome_readBack_iff_of_isExact (integer n) trivial nofun ⟨_, _, rfl⟩ room
  | long n, room => isSome_readBack_iff_of_isExact (long n) trivial nofun ⟨_, _, rfl⟩ room
  | string s, room => isSome_readBack_iff_of_isExact (string s) trivial nofun ⟨_, _, rfl⟩ room
  | float x, 0 => ⟨nofun, nofun⟩
  | float x, room + 1 => by
    rw [readBack_float, Option.isSome_map]
    refine ⟨.float, fun h => ?_⟩
    cases h with
    | exact hexact => exact hexact.elim
    | float hx => exact hx
  | double x, 0 => ⟨nofun, nofun⟩
  | double x, room + 1 => by
    rw [readBack_double, Option.isSome_map]
    refine ⟨.double, fun h => ?_⟩
    cases h with
    | exact hexact => exact hexact.elim
    | double hx => exact hx
  | list items, 0 => ⟨nofun, nofun⟩
  | list items, 1 => by
    rw [readBack_of_narrow (by decide) rfl rfl (.inl rfl)]
    refine ⟨nofun, fun h => ?_⟩
    cases h with
    | exact hexact => exact hexact.elim
  | list items, room + 2 => by
    rw [readBack_list, Option.isSome_map, Json.isSome_mapM_iff, forall_readBack_iff items room]
    refine ⟨.list, fun h => ?_⟩
    cases h with
    | exact hexact => exact hexact.elim
    | list hitems => exact hitems
  | map entries, 0 => ⟨nofun, nofun⟩
  | map entries, 1 => by
    rw [readBack_of_narrow (by decide) rfl rfl (.inr rfl)]
    refine ⟨nofun, fun h => ?_⟩
    cases h with
    | exact hexact => exact hexact.elim
  | map entries, room + 2 => by
    simp only [readBack_map, Option.isSome_map, Json.isSome_mapM_iff]
    rw [forall_readBack_entries_iff entries room]
    refine ⟨.map, fun h => ?_⟩
    cases h with
    | exact hexact => exact hexact.elim
    | map hentries => exact hentries

theorem forall_readBack_iff : ∀ (items : List Value) (room : Nat),
    (∀ v ∈ items, (v.readBack room).isSome = true) ↔ ∀ v ∈ items, Legible room v
  | [], _ => ⟨nofun, nofun⟩
  | v :: rest, room => by
    rw [List.forall_mem_cons, List.forall_mem_cons, isSome_readBack_iff v room,
      forall_readBack_iff rest room]

theorem forall_readBack_entries_iff : ∀ (entries : List (String × Value)) (room : Nat),
    (∀ e ∈ entries, (e.2.readBack room).isSome = true) ↔ ∀ e ∈ entries, Legible room e.2
  | [], _ => ⟨nofun, nofun⟩
  | (_, v) :: rest, room => by
    rw [List.forall_mem_cons, List.forall_mem_cons, isSome_readBack_iff v room,
      forall_readBack_entries_iff rest room]

end

/-! ## Values that survive -/

/-- Values that are read back as they were where there is room for so many containers: those whose
text says all of them, numbers that their texts denote to the reader, and lists and maps of such
values. -/
inductive Survives : Nat → Value → Prop where
  | exact {room : Nat} {v : Value} : v.IsExact → Survives (room + 1) v
  | float {room : Nat} {x : Numeric.Single} :
    (Json.ofSingle x).asSingle? = some x → Survives (room + 1) (float x)
  | double {room : Nat} {x : Numeric.Double} :
    (Json.ofDouble x).asDouble? = some x → Survives (room + 1) (double x)
  | list {room : Nat} {items : List Value} :
    (∀ v ∈ items, Survives room v) → Survives (room + 2) (list items)
  | map {room : Nat} (t : Keyed String Value) :
    (∀ e ∈ t.entries, Survives room e.2) → Survives (room + 2) (ofKeyed t)

theorem Survives.readBack {room : Nat} {v : Value} (h : Survives room v) :
    v.readBack room = some v := by
  induction h with
  | exact hexact => exact hexact.readBack _
  | float hx => rw [readBack_float, hx, Option.map_some]
  | double hx => rw [readBack_double, hx, Option.map_some]
  | list _ ih => rw [readBack_list, Json.mapM_eq_some_self ih, Option.map_some]
  | map t _ ih =>
    have hentries : (t.entries.mapM fun (e : String × Value) =>
        (e.2.readBack _).map fun v => (e.1, v)) = some t.entries :=
      Json.mapM_eq_some_self fun e he => by rw [ih e he, Option.map_some]
    rw [ofKeyed, readBack_map, hentries, Option.map_some, Keyed.ofList_entries]
    rfl

end Value

end StreamQuery
