import StreamQuery.Proofs.Json.Values
import StreamQuery.Sketch.Group
set_option autoImplicit false

/-!
# Reading back partial results

A sample is sent as bytes and read back by another sketch.  What arrives is the sample that was
sent with each of its values read back by itself: the capacity, the bound, the hashes and the
accumulators are never changed on the way, and the sample is refused exactly if one of the values
cannot be read.
-/

namespace StreamQuery

/-- A value that is written at a depth and read back. -/
structure Carried {α : Type} [JsonForm α] (depth : Nat) (a : α) : Prop where
  written : Json.Written depth (JsonForm.toJson a)
  read : JsonForm.ofJson? (JsonForm.toJson a) = some a

/-- What is read from the text of a value where there is room for so many containers inside one
another. -/
def JsonForm.readBack {α : Type} [JsonForm α] (room : Nat) (a : α) : Option α :=
  ofJson? ((toJson a).cut room)

/-- A value that is not too deep for its place is read back there. -/
theorem Carried.readBack {α : Type} [JsonForm α] {depth room : Nat} {a : α}
    (h : Carried depth a) (hroom : depth ≤ room) : JsonForm.readBack room a = some a := by
  rw [JsonForm.readBack, h.written.cut_eq hroom, h.read]

/-! ## Aggregates and summaries -/

theorem readOptionalText_ofOption (text : Option String) :
    readOptionalText (some (.ofOption .ofString text)) = some text :=
  Json.asOptional?_ofOption text

theorem Aggregate.written (a : Aggregate) (n : Nat) : Json.Written (n + 1) a.toJson := by
  apply Json.written_ofMembers
  intro m hm
  simp only [List.mem_cons, List.not_mem_nil, or_false] at hm
  rcases hm with rfl | rfl | rfl
  · exact Json.written_ofString n _
  · exact Json.written_ofOptionalText n _
  · exact Json.written_ofOptionalText n _

theorem Aggregate.read (a : Aggregate) : ofJson? a.toJson = some a := by
  have hfields : a.toJson.fields? [("op_type", .required), ("field", .nullable),
      ("name", .nullable)] = some [some (.ofString a.measure.name),
        some (.ofOption .ofString a.field), some (.ofOption .ofString a.name)] :=
    Json.fields?_ofMembers rfl (by simp)
  have hmeasure : (Json.ofString a.measure.name).asName? .direct Measure.ofName?
      = some a.measure := by
    rw [Json.asName?_ofString]
    exact Measure.ofName?_name a.measure
  simp only [ofJson?, hfields, hmeasure, readOptionalText_ofOption, Option.bind_eq_bind,
    Option.bind_some]
  rfl

/-- A metric as its running value is read back. -/
def Metric.readBack (room : Nat) (m : Metric) : Option Metric :=
  (m.value.readBack room).map fun value => { m with value }

theorem Metric.written {m : Metric} {n : Nat} (h : Json.Written (n + 1) m.value.toJson) :
    Json.Written (n + 2) m.toJson := by
  apply Json.written_ofMembers
  intro member hm
  simp only [List.mem_cons, List.not_mem_nil, or_false] at hm
  rcases hm with rfl | rfl
  · exact m.aggregate.written n
  · exact h

/-- A metric is read if its running value is. -/
theorem Metric.ofJson?_cut (m : Metric) (room : Nat) :
    ofJson? (m.toJson.cut (room + 2)) = m.readBack (room + 1) := by
  have hfields : (m.toJson.cut (room + 2)).fields? [("operation", .required), ("value", .required)]
      = some [some (m.aggregate.toJson.cut (room + 1)), some (m.value.toJson.cut (room + 1))] := by
    rw [toJson, Json.cut_ofMembers]
    exact Json.fields?_ofMembers rfl (by simp)
  have haggregate := (m.aggregate.written 0).cut_eq (show 0 + 1 ≤ room + 1 by omega)
  simp only [ofJson?, hfields, haggregate, m.aggregate.read, Option.bind_eq_bind, Option.bind_some,
    readBack, Value.readBack]
  cases Value.ofJson? (m.value.toJson.cut (room + 1)) <;> rfl

/-- A summary as its running values are read back. -/
def Summary.readBack (room : Nat) (s : Summary) : Option Summary :=
  (s.metrics.mapM (Metric.readBack room)).map .mk

theorem Summary.written {s : Summary} {n : Nat}
    (h : ∀ m ∈ s.metrics, Json.Written (n + 1) m.value.toJson) : Json.Written (n + 4) s.toJson :=
  Json.written_ofMember _ (Json.written_array fun m hm => Metric.written (h m hm))

theorem Summary.ofJson?_cut (s : Summary) (room : Nat) :
    ofJson? (s.toJson.cut (room + 4)) = s.readBack (room + 1) := by
  have hfields : (s.toJson.cut (room + 4)).fields? [("metrics", .required)]
      = some [some ((Json.array (s.metrics.map Metric.toJson)).cut (room + 3))] := by
    rw [toJson, Json.cut_ofMembers]
    exact Json.fields?_ofMembers rfl (by simp)
  have hmetrics : ∀ m ∈ s.metrics,
      Metric.ofJson? (m.toJson.cut (room + 2)) = m.readBack (room + 1) :=
    fun m _ => m.ofJson?_cut room
  simp only [ofJson?, hfields, Json.asList?_cut, Json.mapM_congr hmetrics, readBack]

/-! ## Groups -/

/-- A group as its key and its running values are read back. -/
def Group.readBack (room : Nat) (g : Group) : Option Group :=
  (g.key.mapM (Value.readBack (room + 3))).bind fun key =>
    (g.summary.readBack (room + 1)).map fun summary => ⟨key, summary⟩

/-- How deep the JSON of a group nests around the parts of its running values. -/
def Group.jsonDepth : Nat := 5

theorem Group.written {g : Group} {n : Nat} (hkey : ∀ v ∈ g.key, Json.Written (n + 1) v.toJson)
    (hmetrics : ∀ m ∈ g.summary.metrics, Json.Written (n + 1) m.value.toJson) :
    Json.Written (n + jsonDepth) g.toJson := by
  apply Json.written_ofMembers
  intro member hm
  simp only [List.mem_cons, List.not_mem_nil, or_false] at hm
  rcases hm with rfl | rfl
  · exact Json.written_array fun v hv => (hkey v hv).mono (by omega)
  · exact Summary.written hmetrics

/-- Every group can be written. -/
theorem Group.exists_written (g : Group) : ∃ n, Json.Written n g.toJson := by
  obtain ⟨n, hn⟩ := Json.exists_written fun v (_ : v ∈ g.key) => v.exists_written
  obtain ⟨m, hm⟩ := Json.exists_written fun m (_ : m ∈ g.summary.metrics) => m.value.exists_written
  refine ⟨max n m + jsonDepth, Group.written ?_ ?_⟩
  · exact fun v hv => (hn v hv).mono (by omega)
  · exact fun v hv => (hm v hv).mono (by omega)

/-- A group is read if the values of its key and its running values are. -/
theorem Group.ofJson?_cut (g : Group) (room : Nat) :
    ofJson? (g.toJson.cut (room + jsonDepth)) = g.readBack room := by
  have hfields : (g.toJson.cut (room + 5)).fields? [("key", .required), ("summary", .required)]
      = some [some ((Json.array (g.key.map Value.toJson)).cut (room + 4)),
        some (g.summary.toJson.cut (room + 4))] := by
    rw [toJson, Json.cut_ofMembers]
    exact Json.fields?_ofMembers rfl (by simp)
  have hkey : ∀ v ∈ g.key, Value.ofJson? (v.toJson.cut (room + 3)) = v.readBack (room + 3) :=
    fun _ _ => rfl
  rw [jsonDepth]
  simp only [ofJson?, hfields, Json.asList?_cut, Json.mapM_congr hkey, g.summary.ofJson?_cut,
    readBack, Option.bind_eq_bind]
  cases g.key.mapM (Value.readBack (room + 3)) with
  | none => rfl
  | some key => cases g.summary.readBack (room + 1) <;> rfl

/-- The values of the key of a group and its running values can be read. -/
structure Group.Legible (room : Nat) (g : Group) : Prop where
  key : ∀ v ∈ g.key, v.Legible (room + 3)
  running : ∀ m ∈ g.summary.metrics, m.value.Legible (room + 1)

theorem Group.isSome_readBack_iff {g : Group} {room : Nat} :
    (g.readBack room).isSome = true ↔ g.Legible room := by
  have hkey : (g.key.mapM (Value.readBack (room + 3))).isSome = true
      ↔ ∀ v ∈ g.key, v.Legible (room + 3) := by
    rw [Json.isSome_mapM_iff, Value.forall_readBack_iff]
  have hrunning : (g.summary.readBack (room + 1)).isSome = true
      ↔ ∀ m ∈ g.summary.metrics, m.value.Legible (room + 1) := by
    rw [Summary.readBack, Option.isSome_map, Json.isSome_mapM_iff]
    simp only [Metric.readBack, Option.isSome_map, Value.isSome_readBack_iff]
  have hboth : (g.readBack room).isSome = true
      ↔ (g.key.mapM (Value.readBack (room + 3))).isSome = true
        ∧ (g.summary.readBack (room + 1)).isSome = true := by
    rw [readBack]
    cases g.key.mapM (Value.readBack (room + 3)) <;> simp
  rw [hboth, hkey, hrunning]
  exact ⟨fun h => ⟨h.1, h.2⟩, fun h => ⟨h.key, h.running⟩⟩

/-- The values of the key of a group and its running values are read back as they were. -/
structure Group.Survives (room : Nat) (g : Group) : Prop where
  key : ∀ v ∈ g.key, v.Survives (room + 3)
  running : ∀ m ∈ g.summary.metrics, m.value.Survives (room + 1)

theorem Group.Survives.readBack {g : Group} {room : Nat} (h : g.Survives room) :
    g.readBack room = some g := by
  have hkey : g.key.mapM (Value.readBack (room + 3)) = some g.key :=
    Json.mapM_eq_some_self fun v hv => (h.key v hv).readBack
  have hmetrics : g.summary.metrics.mapM (Metric.readBack (room + 1)) = some g.summary.metrics :=
    Json.mapM_eq_some_self fun m hm => by rw [Metric.readBack, (h.running m hm).readBack]; rfl
  rw [Group.readBack, hkey, Option.bind_some, Summary.readBack, hmetrics]
  rfl

/-- All running values of a summary are exact. -/
def Summary.IsExact (s : Summary) : Prop := ∀ m ∈ s.metrics, m.value.IsExact

/-- The key and all running values of a group are exact. -/
def Group.IsExact (g : Group) : Prop := (∀ v ∈ g.key, v.IsExact) ∧ g.summary.IsExact

theorem Group.IsExact.survives {g : Group} (h : g.IsExact) (room : Nat) : g.Survives room where
  key v hv := .exact (h.1 v hv)
  running m hm := .exact (h.2 m hm)

theorem Group.IsExact.carried {g : Group} (h : g.IsExact) : Carried Group.jsonDepth g := by
  have hwritten : Json.Written (0 + jsonDepth) g.toJson :=
    Group.written (fun v hv => (h.1 v hv).written 0) fun m hm => (h.2 m hm).written 0
  refine ⟨hwritten, ?_⟩
  show Group.ofJson? g.toJson = some g
  rw [← hwritten.cut_eq (Nat.le_refl _), Group.ofJson?_cut, (h.survives 0).readBack]

/-! ## Samples -/

namespace HashSample

variable {α : Type} [JsonForm α] {depth : Nat} {s : HashSample α}

/-- The room for containers where the values of a sample stand in its text. -/
def entryRoom : Nat := Json.depthLimit - 2

/-- A sample as its values are read back. -/
def readBack (s : HashSample α) : Option (HashSample α) :=
  (s.entries.entries.mapM fun (e : UInt64 × α) =>
      (JsonForm.readBack entryRoom e.2).map fun a => (e.1, a)).map
    fun entries => { s with entries := .ofList entries }

theorem written (h : ∀ e ∈ s.entries.entries, Json.Written depth (JsonForm.toJson e.2)) :
    Json.Written (depth + 2) s.toJson := by
  apply Json.written_ofMembers
  intro member hm
  simp only [List.mem_cons, List.not_mem_nil, or_false] at hm
  rcases hm with rfl | rfl | rfl
  · exact Json.written_ofInt _ _
  · exact Json.written_ofInt _ _
  · refine .object ?_ ?_
    · intro m hm
      obtain ⟨e, -, rfl⟩ := List.mem_map.1 hm
      exact Json.quotable_wordName e.1
    · intro m hm
      obtain ⟨e, he, rfl⟩ := List.mem_map.1 hm
      exact h e he

/-- A sample is read if its values are. -/
theorem ofJson?_cut (hcap : s.capacity < 2 ^ 64) :
    ofJson? (s.toJson.cut Json.depthLimit) = s.readBack := by
  have hfields : (s.toJson.cut Json.depthLimit).fields? [("capacity", .required),
      ("theta", .required), ("entries", .required)]
      = some [some (.ofNat s.capacity), some (.ofNat s.bound.toNat),
        some (.object (s.entries.entries.map fun e =>
          (JsonForm.wordName e.1, (JsonForm.toJson e.2).cut entryRoom)))] := by
    have hmembers := Json.cut_object entryRoom
      (s.entries.entries.map fun e => (JsonForm.wordName e.1, JsonForm.toJson e.2))
    rw [List.map_map] at hmembers
    rw [toJson, show Json.depthLimit = entryRoom + 1 + 1 from rfl, Json.cut_ofMembers,
      Json.fields?_ofMembers rfl (by simp)]
    simp only [List.map_cons, List.map_nil, hmembers]
    rfl
  have hentries : (s.entries.entries.map fun e =>
      (JsonForm.wordName e.1, (JsonForm.toJson e.2).cut entryRoom)).mapM entryOfJson?
      = s.entries.entries.mapM fun (e : UInt64 × α) =>
          (JsonForm.readBack entryRoom e.2).map fun a => (e.1, a) := by
    rw [List.mapM_map]
    apply Json.mapM_congr
    intro e _
    simp only [Function.comp_apply, entryOfJson?, Json.wordOfName?_wordName, Option.bind_eq_bind,
      Option.bind_some, JsonForm.readBack]
    cases JsonForm.ofJson? (α := α) ((JsonForm.toJson e.2).cut entryRoom) <;> rfl
  simp only [ofJson?, hfields, Json.asNat?_ofNat hcap, Json.asNat?_ofNat s.bound.toNat_lt,
    Json.asObject?, hentries, readBack, Option.bind_eq_bind, Option.bind_some, UInt64.ofNat_toNat]
  exact Option.map_eq_bind.symm

/-- The bytes of a sample read back to the sample as its values are read back, whatever follows
them; if one is not, they cannot be read. -/
theorem ofBytes_toBytes_readBack {framed : Bytes} (hbytes : s.toBytes = .ok framed)
    (hcap : s.capacity < 2 ^ 64)
    (h : ∀ e ∈ s.entries.entries, ∃ n, Json.Written n (JsonForm.toJson e.2)) (rest : Bytes) :
    ofBytes (framed ++ rest) = match s.readBack with
      | some t => .ok (t, framed.length)
      | none => .error (.sketch .undecodable) := by
  obtain ⟨n, hn⟩ := Json.exists_written h
  have hread : (Json.parseBytes s.toJson.bytes).bind ofJson? = s.readBack := by
    rw [Json.parseBytes_bytes_cut (written hn), Option.bind_some, ofJson?_cut hcap]
  rw [ofBytes, Bytes.unframe_frame_append hbytes rest, ← hread]
  rfl

/-- A sample whose values are all read back as they were is read back. -/
theorem readBack_eq_some (h : ∀ a ∈ s.values, JsonForm.readBack entryRoom a = some a) :
    s.readBack = some s := by
  have hentries : (s.entries.entries.mapM fun (e : UInt64 × α) =>
      (JsonForm.readBack entryRoom e.2).map fun a => (e.1, a)) = some s.entries.entries :=
    Json.mapM_eq_some_self fun e he => by rw [h e.2 (List.mem_map_of_mem he)]; rfl
  rw [readBack, hentries, Option.map_some, Keyed.ofList_entries]

/-- A sample is read back exactly if all its values are. -/
theorem isSome_readBack_iff :
    s.readBack.isSome = true ↔ ∀ a ∈ s.values, (JsonForm.readBack entryRoom a).isSome = true := by
  rw [readBack, Option.isSome_map, Json.isSome_mapM_iff]
  simp only [Option.isSome_map, values, Keyed.values, List.forall_mem_map]

/-- Whatever its values are read as, the capacity, the bound and the hashes of a sample are read
back as they were. -/
theorem readBack_shape {t : HashSample α} (h : s.readBack = some t) :
    t.capacity = s.capacity ∧ t.bound = s.bound ∧ t.entries.keys = s.entries.keys := by
  have hkeys : ∀ {entries es : List (UInt64 × α)}, (entries.mapM fun (e : UInt64 × α) =>
      (JsonForm.readBack entryRoom e.2).map fun a => (e.1, a)) = some es →
      es.map (·.1) = entries.map (·.1) := by
    intro entries
    induction entries with
    | nil =>
      intro es hes
      cases hes
      rfl
    | cons e rest ih =>
      intro es hes
      simp only [List.mapM_cons, Option.bind_eq_bind, Option.bind_eq_some_iff,
        Option.map_eq_some_iff, Option.pure_def, Option.some.injEq] at hes
      obtain ⟨_, ⟨a, -, rfl⟩, more, hmore, rfl⟩ := hes
      rw [List.map_cons, List.map_cons, ih hmore]
  obtain ⟨es, hes, rfl⟩ := Option.map_eq_some_iff.1 h
  have hsame := hkeys hes
  have hascending : es.Pairwise fun a b => compare a.1 b.1 = .lt := by
    have hpairwise : (es.map (·.1)).Pairwise fun a b : UInt64 => compare a b = .lt := by
      rw [hsame]
      exact List.Pairwise.map _ (fun _ _ hlt => hlt) s.entries.ascending
    exact List.pairwise_map.1 hpairwise
  have hentries : (Keyed.ofList es).entries = es :=
    congrArg Keyed.entries (Keyed.ofList_entries ⟨es, hascending⟩)
  refine ⟨rfl, rfl, ?_⟩
  show (Keyed.ofList es).entries.map (·.1) = s.entries.entries.map (·.1)
  rw [hentries, hsame]

/-- The bytes of a sample read back to the sample, whatever follows them. -/
theorem ofBytes_toBytes {framed : Bytes} (hbytes : s.toBytes = .ok framed)
    (hcap : s.capacity < 2 ^ 64) (h : ∀ e ∈ s.entries.entries, Carried depth e.2)
    (hdepth : depth + 2 ≤ Json.depthLimit) (rest : Bytes) :
    ofBytes (framed ++ rest) = .ok (s, framed.length) := by
  have hroom : depth ≤ entryRoom := Nat.le_sub_of_add_le hdepth
  rw [ofBytes_toBytes_readBack hbytes hcap (fun e he => ⟨depth, (h e he).written⟩),
    readBack_eq_some ?_]
  intro a ha
  obtain ⟨e, he, rfl⟩ := List.mem_map.1 ha
  exact (h e he).readBack hroom

end HashSample

/-! ## Samples of groups -/

/-- The room for containers that the text of a sample leaves to a group, beyond those that the group
needs for itself. -/
def Group.partRoom : Nat := HashSample.entryRoom - jsonDepth

theorem Group.jsonForm_readBack (g : Group) :
    JsonForm.readBack HashSample.entryRoom g = g.readBack partRoom :=
  g.ofJson?_cut partRoom

variable {s : HashSample Group}

/-- A sample of groups is read back exactly if all its groups can be read. -/
theorem HashSample.isSome_readBack_iff_legible :
    s.readBack.isSome = true ↔ ∀ group ∈ s.values, group.Legible Group.partRoom := by
  rw [isSome_readBack_iff]
  simp only [Group.jsonForm_readBack, Group.isSome_readBack_iff]

theorem HashSample.readBack_of_survives
    (h : ∀ group ∈ s.values, group.Survives Group.partRoom) : s.readBack = some s :=
  readBack_eq_some fun group hgroup => by
    rw [group.jsonForm_readBack, (h group hgroup).readBack]

end StreamQuery
