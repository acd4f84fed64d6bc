import StreamQuery.Proofs.Aggregation.Groups
import StreamQuery.Proofs.Aggregation.Shipping
import StreamQuery.Proofs.Sketch.Firsts
set_option autoImplicit false

/-!
# The keys that name groups

Keys that are equal as numbers have one hash, so a group can be given several keys, and it is shown
under one of them.  Within a GROUP BY of its own records that is the first one.  A partial result,
though, is put in front of everything that was there before it: the key that comes with it takes the
place of the one that was shown.
-/

namespace StreamQuery

/-! ## Groups that are read back -/

/-- A running value that is read back is one. -/
theorem Value.IsTally.readBack {v w : Value} {room : Nat} (h : v.IsTally)
    (hread : v.readBack (room + 1) = some w) : w.IsTally := by
  have hexact (hv : v.IsExact) : w.IsTally := by
    rw [hv.readBack] at hread
    exact Option.some.inj hread ▸ h
  rcases h with rfl | hnumeric
  · exact hexact trivial
  · cases v with
    | integer n => exact hexact trivial
    | long n => exact hexact trivial
    | float x =>
      rw [readBack_float] at hread
      obtain ⟨y, -, rfl⟩ := Option.map_eq_some_iff.1 hread
      exact .inr rfl
    | double x =>
      rw [readBack_double] at hread
      obtain ⟨y, -, rfl⟩ := Option.map_eq_some_iff.1 hread
      exact .inr rfl
    | _ => cases hnumeric

/-- A summary of records that is read back is one. -/
theorem Summary.IsTally.readBack {accumulators : List Aggregate} {s s' : Summary} {room : Nat}
    (h : s.IsTally accumulators) (hread : s.readBack (room + 1) = some s') :
    s'.IsTally accumulators := by
  obtain ⟨value, rfl, hvalue⟩ := h
  obtain ⟨metrics, hmetrics, rfl⟩ := Option.map_eq_some_iff.1 hread
  have hvalues : ∀ a ∈ accumulators, ∃ w, (value a).readBack (room + 1) = some w := by
    intro a ha
    have hread := Json.isSome_mapM_iff.1 (Option.isSome_iff_exists.2 ⟨_, hmetrics⟩)
    obtain ⟨m, hm⟩ := Option.isSome_iff_exists.1 (hread ⟨a, value a⟩ (List.mem_map_of_mem ha))
    obtain ⟨w, hw, -⟩ := Option.map_eq_some_iff.1 hm
    exact ⟨w, hw⟩
  choose! value' hvalue' using hvalues
  refine ⟨value', ?_, fun a ha => (hvalue a ha).readBack (hvalue' a ha)⟩
  have heach : ∀ a ∈ accumulators,
      Metric.readBack (room + 1) ⟨a, value a⟩ = some ⟨a, value' a⟩ := by
    intro a ha
    rw [Metric.readBack, hvalue' a ha]
    rfl
  rw [valued, List.mapM_map] at hmetrics
  rw [valued, ← Option.some.inj (hmetrics.symm.trans (Json.mapM_eq_some_map heach))]

namespace Grouping

variable {g : Grouping} {capacity : Nat} {s t : HashSample Group}

theorem Collects.readBack {group group' : Group} {room : Nat} (h : g.Collects group)
    (hread : group.readBack room = some group') : g.Collects group' := by
  obtain ⟨key, -, hrest⟩ := Option.bind_eq_some_iff.1 hread
  obtain ⟨summary, hsummary, rfl⟩ := Option.map_eq_some_iff.1 hrest
  exact Summary.IsTally.readBack h hsummary

/-- A sample of groups of records is read back as one. -/
theorem Collected.readBack (h : g.Collected capacity s) (hread : s.readBack = some t) :
    t.entries.All fun _ group => g.Collects group := by
  obtain ⟨entries, hentries, rfl⟩ := Option.map_eq_some_iff.1 hread
  refine Keyed.All.ofList fun e he => ?_
  obtain ⟨e', he', hback⟩ := Json.mem_of_mapM hentries he
  obtain ⟨group, hgroup, rfl⟩ := Option.map_eq_some_iff.1 hback
  rw [Group.jsonForm_readBack] at hgroup
  exact (h.collects.mem he').readBack hgroup

/-! ## The fields of a key -/

/-- Names that pass the check are all different, and different from those seen before. -/
theorem nodup_of_checkNames {seen names : List String} (h : checkNames seen names = .ok ()) :
    names.Nodup ∧ ∀ name ∈ names, name ∉ seen := by
  induction names generalizing seen with
  | nil => exact ⟨.nil, nofun⟩
  | cons name rest ih =>
    rw [checkNames] at h
    split at h
    · cases h
    · split at h
      · cases h
      · rename_i hnew
        obtain ⟨hnodup, hunseen⟩ := ih h
        refine ⟨List.nodup_cons.2 ⟨fun hmem => ?_, hnodup⟩, ?_⟩
        · exact hunseen name hmem List.mem_cons_self
        · refine List.forall_mem_cons.2 ⟨hnew, fun other hother hseen => ?_⟩
          exact hunseen other hother (List.mem_cons_of_mem _ hseen)

theorem nodup_outputNames (h : g.validate = .ok ()) : g.outputNames.Nodup := by
  unfold validate at h
  split at h
  · cases h
  · exact (nodup_of_checkNames h).1

/-- The names that are given to values are among all names, in their order. -/
theorem sublist_map_fst_zip (names : List String) (values : List Value) :
    ((names.zip values).map Prod.fst).Sublist names := by
  induction names generalizing values with
  | nil => exact List.nil_sublist _
  | cons name rest ih =>
    cases values with
    | nil => exact List.nil_sublist _
    | cons v values => exact (ih values).cons_cons name

/-- A result record shows the key of its group under the names of the key expressions. -/
theorem get?_resultRecord (h : g.validate = .ok ()) (group : Group) {e : String × Value}
    (he : e ∈ (g.keys.map (·.1)).zip group.key) : (g.resultRecord group).get? e.1 = some e.2 := by
  rw [resultRecord_eq]
  refine Keyed.get?_ofList_of_mem ?_ (List.mem_append_left _ he)
  have hcolumns : (((g.aggregates.filter fun a => !a.measure.isInternal).map fun a =>
      (a.outputName, group.summary.result a)).map Prod.fst).Sublist
        (g.aggregates.map Aggregate.outputName) := by
    rw [List.map_map]
    exact List.filter_sublist.map _
  rw [List.map_append]
  exact (nodup_outputNames h).sublist ((sublist_map_fst_zip _ _).append hcolumns)

/-! ## What a record delivers -/

/-- The key that a record delivers under its hash, if it is taken. -/
def delivers (g : Grouping) (r : Record) : List (UInt64 × List Value) :=
  if g.Takes r then [(Value.hashTuple (g.keyOf r), g.keyOf r)] else []

theorem delivers_of_group {r : Record} {group : Group} (h : g.groupOf r = .ok group) :
    g.delivers r = [(Value.hashTuple group.key, group.key)] := by
  have hkey : group.key = g.keyOf r := by
    unfold groupOf at h
    split at h
    · cases h
      rfl
    · cases h
  rw [delivers, if_pos ⟨group, h⟩, hkey]

theorem delivers_of_error {r : Record} {e : QueryError} (h : g.groupOf r = .error e) :
    g.delivers r = [] := by
  apply if_neg
  rintro ⟨group, hgroup⟩
  cases hgroup.symm.trans h

end Grouping

/-- The key of a group stays when another group is combined into it. -/
theorem stays_key : Stays Group.key := by
  intro a b c hdone
  exact congrArg (fun t : Transition Group Unit => t.2.key) hdone.symm

namespace GroupBy

/-! ## States -/

section States

variable {g : Grouping} {capacity : Nat} {d : Spread (UInt64 × List Value)} {q : GroupBy}

/-- A GROUP BY of records whose keys are spread over its sketch, the first one under a hash before
the others. -/
structure Named (g : Grouping) (capacity : Nat) (d : Spread (UInt64 × List Value))
    (q : GroupBy) : Prop extends Local g capacity q where
  marks : Marks Group.key capacity d q.sketch.sketch

theorem named_new (g : Grouping) (capacity : Nat) : Named g capacity .none ⟨g, .new capacity⟩ where
  grouping_eq := rfl
  coherent := coherent_new _
  samples := (g.lasting_collected capacity).new
  marks := marks_new _ _

theorem Named.consume (h : Named g capacity d q) (r : Record) :
    Named g capacity { d with updates := d.updates ++ g.delivers r } (q.consume r).2 := by
  refine ⟨h.toLocal.apply (s := .consume r) rfl, ?_⟩
  obtain ⟨rfl, -, hsamples⟩ := h.toLocal
  rcases consume_cases hsamples r with ⟨k, hconsume, -, group, hgroup⟩ | ⟨e, hconsume, hgroup⟩
  · have hadd := consume_of_group hgroup
    rw [hconsume] at hadd
    rcases hcase : Sketch.add q.sketch.sketch (Value.hashTuple group.key) group
      with ⟨⟨e⟩ | ⟨kept⟩, k'⟩
    · rw [hcase] at hadd
      cases hadd
    · rw [hcase] at hadd
      have hk : k = k' := congrArg (fun t => t.2.sketch.sketch) hadd
      rw [hconsume, Grouping.delivers_of_group hgroup]
      exact hk ▸ h.marks.add stays_key hcase
  · rw [hconsume, Grouping.delivers_of_error hgroup, List.append_nil]
    exact h.marks

/-- A read shows every group under the key that comes first. -/
theorem Named.read (h : Named g capacity d q) :
    ∃ t k, Sketch.result q.sketch.sketch = .done t k ∧ Sketch.result k = .done t k ∧
      g.Collected capacity t ∧
      (∀ {hash group}, t.get? hash = some group →
        Keyed.findEntry hash d.items = some group.key) ∧
      Named g capacity (.settled d.items d.bound) (q.withSketch k) := by
  obtain ⟨t, k, hread, ht, hagain⟩ := h.toLocal.read
  obtain ⟨hshown, hmarks⟩ := h.marks.read stays_key hread
  have hdata := h.toLocal.apply (s := .data) rfl
  have hleft : GroupByStep.data.apply q = q.withSketch k := by
    show q.withSketch (Sketch.result q.sketch.sketch).2 = _
    rw [hread]
    rfl
  rw [hleft] at hdata
  exact ⟨t, k, hread, hagain, ht, hshown, hdata, hmarks⟩

theorem Named.reset (h : Named g capacity d q) : Named g capacity .none q.reset :=
  ⟨h.toLocal.apply (s := .reset) rfl, h.marks.reset⟩

/-- A partial result of groups of records puts its keys behind those of the partial results that
came since the last read, and so in front of all others. -/
theorem Named.combine (h : Named g capacity d q) {bs : Bytes} {used : Nat} {t : HashSample Group}
    (hread : HashSample.ofBytes bs = .ok (t, used))
    (ht : t.entries.All fun _ group => g.Collects group) :
    Named g capacity
      { d with
        unions := d.unions ++ t.entries.entries.map fun e => (e.1, e.2.key)
        unionBound := min d.unionBound t.bound }
      (q.combine bs).2 := by
  obtain ⟨u, hmerge, hu⟩ := h.samples.unions.take ht
  have hunion : (q.combine bs).2 = q.withSketch { q.sketch.sketch with
      parts := { q.sketch.sketch.parts with unions := u }, unioned := true, stale := true } := by
    show q.withSketch (Sketch.unionBytes q.sketch.sketch bs).2 = _
    simp only [Sketch.unionBytes, Lazy.union, HashSample.unionBytes, hread, hmerge]
    rfl
  have hcoherent := coherent_apply h.coherent (.combine bs)
  simp only [GroupByStep.apply, hunion] at hcoherent ⊢
  exact ⟨⟨h.grouping_eq, hcoherent, { h.samples with unions := hu }⟩,
    h.marks.union stays_key hmerge⟩

/-- A partial result that cannot be read delivers nothing. -/
theorem Named.combine_unreadable (h : Named g capacity d q) {bs : Bytes} {e : QueryError}
    (hread : HashSample.ofBytes (α := Group) bs = .error e) :
    Named g capacity d (q.combine bs).2 := by
  have hcoherent := coherent_apply h.coherent (.combine bs)
  simp only [GroupByStep.apply, combine_of_unreadable hread] at hcoherent ⊢
  exact ⟨⟨h.grouping_eq, hcoherent, h.samples⟩, h.marks.alerted⟩

/-- What a GROUP BY of records sends is read by others as groups of records, or not at all. -/
theorem Local.sent (h : Local g capacity q) (hcap : max capacity 1 < 2 ^ 64) {bs : Bytes}
    (hbs : q.data.1 = .ok bs) :
    (∃ e, HashSample.ofBytes (α := Group) bs = .error e) ∨
      ∃ t used, HashSample.ofBytes bs = .ok (t, used) ∧
        t.entries.All fun _ group => g.Collects group := by
  obtain ⟨s, k, hread, hs, -⟩ := h.read
  have hbytes : s.toBytes = .ok bs := by
    rw [← hbs]
    show _ = (Sketch.result q.sketch.sketch).1.bind HashSample.toBytes
    rw [hread]
    rfl
  have hback := HashSample.ofBytes_toBytes_readBack hbytes (hs.capacity_eq ▸ hcap)
    (fun e _ => e.2.exists_written) []
  rw [List.append_nil] at hback
  cases ht : s.readBack with
  | none =>
    rw [ht] at hback
    exact .inl ⟨_, hback⟩
  | some t =>
    rw [ht] at hback
    exact .inr ⟨t, _, hback, hs.readBack ht⟩

end States

/-! ## Histories -/

/-- The histories of a GROUP BY: records, partial results of others that compute the same, reads and
resets.  There may be room for more groups in the others, or for fewer. -/
inductive History where
  | new (capacity : UInt64)
  | consume (h : History) (r : Record)
  | combine (h other : History)
  | data (h : History)
  | result (h : History)
  | reset (h : History)

namespace History

/-- The number of groups that there is room for. -/
def capacity : History → Nat
  | new capacity => capacity.toNat
  | consume h _ | combine h _ | data h | result h | reset h => h.capacity

/-- The GROUP BY with a history.  Bytes that cannot be made are not combined. -/
def state (g : Grouping) : History → GroupBy
  | new capacity => ⟨g, .new capacity.toNat⟩
  | consume h r => ((h.state g).consume r).2
  | combine h other =>
    match (other.state g).data.1 with
    | .ok bs => ((h.state g).combine bs).2
    | .error _ => h.state g
  | data h => (h.state g).data.2
  | result h => (h.state g).result.2
  | reset h => (h.state g).reset

/-- The sample that others read from the bytes of a GROUP BY, if they can be made and read. -/
def sent (g : Grouping) (h : History) : Option (HashSample Group) :=
  ((h.state g).data.1.bind HashSample.ofBytes).toOption.map Prod.fst

/-- The keys that others read from the bytes of a GROUP BY. -/
def keysSent (g : Grouping) (h : History) : List (UInt64 × List Value) :=
  ((h.sent g).map fun t => t.entries.entries.map fun e => (e.1, e.2.key)).getD []

/-- The keys that were delivered since a GROUP BY was empty, in the order of their coming. -/
def delivered (g : Grouping) : History → List (UInt64 × List Value)
  | new _ | reset _ => []
  | consume h r => h.delivered g ++ g.delivers r
  | combine h other => h.delivered g ++ other.keysSent g
  | data h | result h => h.delivered g

/-- The same keys as they lie in the sketch: those of the partial results since the last read, those
that were read, and those of the records since the last read. -/
def spread (g : Grouping) : History → Spread (UInt64 × List Value)
  | new _ | reset _ => .none
  | consume h r => { h.spread g with updates := (h.spread g).updates ++ g.delivers r }
  | combine h other => { h.spread g with
      unions := (h.spread g).unions ++ other.keysSent g
      unionBound := min (h.spread g).unionBound
        (((other.sent g).map HashSample.bound).getD HashSample.noBound) }
  | data h | result h => .settled (h.spread g).items (h.spread g).bound

theorem capacity_lt (h : History) : max h.capacity 1 < 2 ^ 64 := by
  induction h with
  | new capacity =>
    have := capacity.toNat_lt
    simp only [History.capacity]
    omega
  | consume _ _ ih | combine _ _ ih _ | data _ ih | result _ ih | reset _ ih => exact ih

/-- Whatever its history, a GROUP BY has the keys as they were spread. -/
theorem named (g : Grouping) (h : History) : Named g h.capacity (h.spread g) (h.state g) := by
  induction h with
  | new capacity => exact named_new g capacity.toNat
  | consume h r ih => exact ih.consume r
  | reset h ih => exact ih.reset
  | data h ih =>
    obtain ⟨t, k, hread, -, -, -, hk⟩ := ih.read
    have hleft : (h.state g).data.2 = (h.state g).withSketch k := by
      show (h.state g).withSketch (Sketch.result (h.state g).sketch.sketch).2 = _
      rw [hread]
      rfl
    rw [state, hleft]
    exact hk
  | result h ih =>
    obtain ⟨t, k, hread, hagain, -, -, hk⟩ := ih.read
    rw [state, result_of_reads hread hagain]
    exact hk
  | combine h other ih ihother =>
    cases hbs : (other.state g).data.1 with
    | error e =>
      have hnone : other.sent g = none := by
        rw [sent, hbs]
        rfl
      simp only [state, spread, hbs, keysSent, hnone, Option.map_none, Option.getD_none,
        List.append_nil, min_noBound]
      exact ih
    | ok bs =>
      simp only [state, spread, hbs]
      rcases ihother.toLocal.sent other.capacity_lt hbs with ⟨e, hread⟩ | ⟨t, used, hread, ht⟩
      · have hnone : other.sent g = none := by
          rw [sent, hbs, Except.bind, hread]
          rfl
        simp only [keysSent, hnone, Option.map_none, Option.getD_none, List.append_nil,
          min_noBound]
        exact ih.combine_unreadable hread
      · have hsome : other.sent g = some t := by
          rw [sent, hbs, Except.bind, hread]
          rfl
        simp only [keysSent, hsome, Option.map_some, Option.getD_some]
        exact ih.combine hread ht

/-! ## Names -/

/-- The groups that a result shows, under the hashes of their keys. -/
def shown (g : Grouping) (h : History) : Outcome (HashSample Group) :=
  (Sketch.result (h.state g).sketch.sketch).1

/-- Since a GROUP BY was empty, no partial result came with another key for a group than the first
one that was delivered. -/
def Steady (g : Grouping) (hash : UInt64) : History → Prop
  | new _ | reset _ => True
  | consume h _ | data h | result h => h.Steady g hash
  | combine h other => h.Steady g hash ∧
      ∀ key first, Keyed.findEntry hash (other.keysSent g) = some key →
        Keyed.findEntry hash (h.delivered g) = some first → key = first

/-- What a history may become without a reset, and without a partial result that comes with another
key for a group than the given one. -/
inductive Later (g : Grouping) (hash : UInt64) (key : List Value) (h : History) : History → Prop
  | refl : Later g hash key h h
  | consume {h' : History} (r : Record) : Later g hash key h h' → Later g hash key h (h'.consume r)
  | combine {h' : History} (other : History) : Later g hash key h h' →
      (∀ key', Keyed.findEntry hash (other.keysSent g) = some key' → key' = key) →
      Later g hash key h (h'.combine other)
  | data {h' : History} : Later g hash key h h' → Later g hash key h h'.data
  | result {h' : History} : Later g hash key h h' → Later g hash key h h'.result

variable {g : Grouping} {hash : UInt64} {key : List Value} {h later : History}

/-- The key of a record comes behind all others. -/
theorem findEntry_consume (h : History) (r : Record) :
    Keyed.findEntry hash ((h.consume r).spread g).items
      = (Keyed.findEntry hash (h.spread g).items).or (Keyed.findEntry hash (g.delivers r)) := by
  rw [← Keyed.findEntry_append]
  simp only [spread, Spread.items, List.append_assoc]

/-- The keys of a partial result come behind those of the partial results since the last read. -/
theorem findEntry_combine (h other : History) :
    Keyed.findEntry hash ((h.combine other).spread g).items
      = (Keyed.findEntry hash (h.spread g).unions).or
          ((Keyed.findEntry hash (other.keysSent g)).or
            ((Keyed.findEntry hash (h.spread g).result).or
              (Keyed.findEntry hash (h.spread g).updates))) := by
  simp only [spread, Spread.items, Keyed.findEntry_append, Option.or_assoc]

/-- A partial result that comes with no other key leaves the key of a group. -/
theorem findEntry_combine_of_same {other : History}
    (hkey : Keyed.findEntry hash (h.spread g).items = some key)
    (hother : ∀ key', Keyed.findEntry hash (other.keysSent g) = some key' → key' = key) :
    Keyed.findEntry hash ((h.combine other).spread g).items = some key := by
  rw [findEntry_combine]
  simp only [Spread.items, Keyed.findEntry_append, Option.or_assoc] at hkey
  cases hunions : Keyed.findEntry hash (h.spread g).unions with
  | some first =>
    rw [hunions] at hkey
    exact hkey
  | none =>
    rw [hunions, Option.none_or] at hkey
    rw [Option.none_or]
    cases hsent : Keyed.findEntry hash (other.keysSent g) with
    | none => exact hkey
    | some key' =>
      rw [hother key' hsent]
      rfl

/-- A steady group has the first key that was delivered. -/
theorem Steady.findEntry_eq (hsteady : h.Steady g hash) :
    Keyed.findEntry hash (h.spread g).items = Keyed.findEntry hash (h.delivered g) := by
  induction h with
  | new _ => rfl
  | reset _ => rfl
  | consume h r ih =>
    rw [findEntry_consume, delivered, Keyed.findEntry_append, ih hsteady]
  | data h ih | result h ih =>
    rw [spread, Spread.items_settled]
    exact ih hsteady
  | combine h other ih _ =>
    obtain ⟨hbefore, hsent⟩ := hsteady
    rw [delivered, Keyed.findEntry_append, ← ih hbefore]
    cases hkey : Keyed.findEntry hash (h.spread g).items with
    | some key =>
      refine findEntry_combine_of_same hkey fun key' hkey' => ?_
      exact hsent key' key hkey' ((ih hbefore).symm.trans hkey)
    | none =>
      -- nothing was delivered for the group before
      simp only [Spread.items, Keyed.findEntry_append, Option.or_eq_none_iff] at hkey
      rw [findEntry_combine, hkey.1.1, hkey.1.2, hkey.2]
      simp only [Option.none_or, Option.or_none]

/-- A group keeps its key as long as no partial result comes with another one. -/
theorem Later.findEntry_eq (hlater : Later g hash key h later)
    (hkey : Keyed.findEntry hash (h.spread g).items = some key) :
    Keyed.findEntry hash (later.spread g).items = some key := by
  induction hlater with
  | refl => exact hkey
  | consume r _ ih =>
    rw [findEntry_consume, ih]
    rfl
  | combine other _ hother ih => exact findEntry_combine_of_same ih hother
  | data _ ih | result _ ih =>
    rw [spread, Spread.items_settled]
    exact ih

/-- A GROUP BY of records and of partial results of others can always be read.  Each result record
has the key of a group in its fields, and of all keys that were delivered for the group it is the
first in this order: those of the partial results since the last read, those that were read then,
in their order, and those of the records since.  So it is the first key that was delivered unless a
partial result came with another one, and only a partial result or a reset makes it another one. -/
theorem shown_key (hg : g.validate = .ok ()) (h : History) :
    ∃ t, h.shown g = .ok t ∧ (h.state g).result.1 = .ok ((h.state g).batchOf t) ∧
      ∀ hash group, t.get? hash = some group →
        (∀ e ∈ (g.keys.map (·.1)).zip group.key, (g.resultRecord group).get? e.1 = some e.2) ∧
        Keyed.findEntry hash (h.spread g).items = some group.key ∧
        (h.Steady g hash → Keyed.findEntry hash (h.delivered g) = some group.key) ∧
        ∀ later t' group', Later g hash group.key h later → later.shown g = .ok t' →
          t'.get? hash = some group' → group'.key = group.key := by
  obtain ⟨t, k, hread, hagain, -, hnames, -⟩ := (h.named g).read
  refine ⟨t, by rw [shown, hread]; rfl, by rw [result_of_reads hread hagain]; rfl, ?_⟩
  intro hash group hgroup
  have hkey := hnames hgroup
  refine ⟨fun e he => Grouping.get?_resultRecord hg group he, hkey, fun hsteady => ?_, ?_⟩
  · rw [← hsteady.findEntry_eq, hkey]
  · intro later t' group' hlater hshown hgroup'
    obtain ⟨s, k', hread', -, -, hnames', -⟩ := (later.named g).read
    rw [shown, hread'] at hshown
    cases hshown
    exact Option.some.inj ((hnames' hgroup').symm.trans (hlater.findEntry_eq hkey))

/-! ## A group that is renamed -/

/-- The records of every key are counted. -/
def countByKey : Grouping :=
  ⟨[("k", .column "k")], [⟨.count, none, some "n"⟩], .skip, Record.lookup⟩

/-- A record with the INTEGER five for its key, and a result. -/
def readFive : History := ((new 16).consume (.ofList [("k", .integer 5)])).result

/-- After that the partial result of a record with the DOUBLE five for its key. -/
def renamedFive : History :=
  readFive.combine ((new 16).consume
    (.ofList [("k", .double (Numeric.doubleOfWord 0x4014000000000000))]))

/-- The kinds of the keys in a result. -/
def keyKinds (h : History) : Outcome (List (Option Kind)) :=
  (h.state countByKey).result.1.map fun b => b.records.map fun r => (r.get? "k").map Value.kind

theorem shown_key_renamedFive :
    countByKey.validate = .ok () ∧
    ∃ t, renamedFive.shown countByKey = .ok t ∧
      (renamedFive.state countByKey).result.1 = .ok ((renamedFive.state countByKey).batchOf t) ∧
      ∀ hash group, t.get? hash = some group →
        (∀ e ∈ (countByKey.keys.map (·.1)).zip group.key,
          (countByKey.resultRecord group).get? e.1 = some e.2) ∧
        Keyed.findEntry hash (renamedFive.spread countByKey).items = some group.key ∧
        (renamedFive.Steady countByKey hash →
          Keyed.findEntry hash (renamedFive.delivered countByKey) = some group.key) ∧
        ∀ later t' group', Later countByKey hash group.key renamedFive later →
          later.shown countByKey = .ok t' → t'.get? hash = some group' →
          group'.key = group.key := by
  have hvalid : countByKey.validate = .ok () := by decide
  exact ⟨hvalid, shown_key hvalid renamedFive⟩

/-- A group that was first delivered, and read, with an INTEGER for its key is shown with a DOUBLE
after a partial result that came with that. -/
theorem five_is_renamed :
    countByKey.validate = .ok () ∧
      (∃ hash, (renamedFive.delivered countByKey).map
          (fun e => (e.1, e.2.map Value.kind)) = [(hash, [.integer]), (hash, [.double])]) ∧
      keyKinds readFive = .ok [some .integer] ∧ keyKinds renamedFive = .ok [some .double] := by
  refine ⟨by decide, ⟨Value.hashTuple [.integer 5], ?_⟩, ?_, ?_⟩
  · decide +kernel
  · decide +kernel
  · decide +kernel

end History

end GroupBy

end StreamQuery
