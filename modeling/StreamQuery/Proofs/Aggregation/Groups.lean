import StreamQuery.Proofs.Aggregate.Answers
import StreamQuery.Proofs.Aggregation.Rereading
import StreamQuery.Proofs.Json.Partials
import StreamQuery.Proofs.Sketch.Gathers
import StreamQuery.Proofs.Sample.Smallest
set_option autoImplicit false

/-!
# The groups of records

A GROUP BY offers the records it takes under the hashes of their keys, and the records of one
hash make one group.  As long as no two keys share a hash it does not matter in which order
the records came, nor whether they were taken one by one or came as the bytes of another
GROUP BY; every step keeps track of the records, and the result is what they answer.
-/

namespace StreamQuery

/-- Fields behind others are set one after another. -/
theorem Record.ofList_append (entries more : List (String × Value)) :
    Record.ofList (entries ++ more) = more.foldl (fun r e => r.set e.1 e.2) (.ofList entries) := by
  induction more generalizing entries with
  | nil => rw [List.append_nil, List.foldl_nil]
  | cons e more ih =>
    have hset : (Record.ofList entries).set e.1 e.2 = .ofList (entries ++ [e]) := by
      simp only [Record.set, Record.ofList, Keyed.ofList, List.foldl_append, List.foldl_cons,
        List.foldl_nil]
    rw [List.foldl_cons, hset, ← ih, List.append_assoc]
    rfl

namespace Grouping

/-! ## Records -/

/-- The key of a record is made of NULL, truth values, integers and texts, and every field that is
aggregated is absent, NULL or a LONG. -/
structure Suits (g : Grouping) (r : Record) : Prop where
  key : ∀ v ∈ g.keyOf r, v.IsExact
  fields : ∀ a ∈ g.aggregates, a.Suits g.lookup r

/-- The hash of the key of a record. -/
def hashOf (g : Grouping) (r : Record) : UInt64 := Value.hashTuple (g.keyOf r)

/-- No two keys of some records share a hash. -/
def Separates (g : Grouping) (rs : List Record) : Prop :=
  ∀ r ∈ rs, ∀ r' ∈ rs, g.hashOf r = g.hashOf r' → g.keyOf r = g.keyOf r'

/-- Records are offered under the hashes of their keys and make groups. -/
def offering (g : Grouping) : Offering Record Group where
  hash := g.hashOf
  value r rs := ⟨g.keyOf r, .ofRecords g.lookup g.accumulators (r :: rs)⟩

/-- The result record of the records of one key. -/
def answer (g : Grouping) (rs : List Record) : Record :=
  .ofList ((g.keys.map (·.1)).zip ((rs.head?.map g.keyOf).getD []) ++
    (g.aggregates.filter fun a => !a.measure.isInternal).map fun a =>
      (a.outputName, a.answer g.lookup rs))

/-- A batch answers for the records of the smallest hashes, ascending, as many as the capacity
allows. -/
def Answers (g : Grouping) (capacity : Nat) (rs : List Record) (b : Batch) : Prop :=
  ∃ hashes : List UInt64, hashes.Pairwise (· < ·) ∧
    (∀ h, h ∈ hashes ↔
      h ∈ rs.map g.hashOf ∧ rank (rs.map g.hashOf).toFinset h < max capacity 1) ∧
    b.records = hashes.map fun h => g.answer (rs.filter fun r => g.hashOf r == h)

variable {g : Grouping} {r : Record} {stream : List Record}

/-! ## One group -/

theorem Suits.accumulators (h : g.Suits r) : ∀ a ∈ g.accumulators, a.Suits g.lookup r := by
  intro a ha field hfield
  obtain ⟨b, hb, hsame⟩ := Aggregate.field_of_mem_accumulators ha
  exact h.fields b hb field (hsame ▸ hfield)

/-- The group of a single record. -/
theorem groupOf_of_suits (hpolicy : g.policy = .skip) (h : g.Suits r) :
    g.groupOf r = .ok (g.offering.value r []) := by
  have hconsume : (Summary.start g.accumulators).consume g.lookup g.policy r
      = .done () (.ofRecords g.lookup g.accumulators [r]) := by
    rw [hpolicy]
    exact Summary.consume_start h.accumulators
  rw [groupOf, hconsume]
  rfl

/-- Groups of records without colliding keys combine to the group of all of them. -/
theorem lawful_offering (h : g.Separates stream) : g.offering.Lawful (· ∈ stream) where
  combine_value {x y xs ys} _ := by
    have hcombine := Summary.combine_ofRecords g.lookup
      (Aggregate.distinct_accumulators g.aggregates) (x :: xs) (y :: ys)
    show ((Summary.ofRecords g.lookup g.accumulators (x :: xs)).combine
      (.ofRecords g.lookup g.accumulators (y :: ys))).within _ = _
    rw [accumulators, hcombine]
    rfl
  value_perm {x y xs ys} hperm hall := by
    have hx := hall x List.mem_cons_self
    have hy := hall y (hperm.mem_iff.2 List.mem_cons_self)
    have hkey : g.keyOf x = g.keyOf y := h x hx.1 y hy.1 hy.2.symm
    have hsummary : Summary.ofRecords g.lookup g.accumulators (x :: xs)
        = .ofRecords g.lookup g.accumulators (y :: ys) := by
      simp only [Summary.ofRecords, Aggregate.runningOver_perm g.lookup _ hperm]
    show Group.mk _ _ = Group.mk _ _
    rw [hkey, hsummary]

/-- A group of records can be sent. -/
theorem isExact_value (h : g.Suits r) (rs : List Record) : (g.offering.value r rs).IsExact := by
  refine ⟨h.key, fun m hm => ?_⟩
  obtain ⟨a, -, rfl⟩ := List.mem_map.1 hm
  rcases a.measure.running_cases ((r :: rs).filterMap (a.input? g.lookup)) with ⟨n, hn⟩ | hn
  · show (a.measure.running _).IsExact
    rw [hn]
    trivial
  · show (a.measure.running _).IsExact
    rw [hn]
    trivial

/-- The fields of a result record: those of the key, and those of the aggregates that were asked
for. -/
theorem resultRecord_eq (g : Grouping) (group : Group) :
    g.resultRecord group = .ofList ((g.keys.map (·.1)).zip group.key ++
      (g.aggregates.filter fun a => !a.measure.isInternal).map fun a =>
        (a.outputName, group.summary.result a)) := by
  rw [Record.ofList_append, List.foldl_map]
  rfl

/-- The result record of a group is what its records answer. -/
theorem resultRecord_value (g : Grouping) (r : Record) (rs : List Record) :
    g.resultRecord (g.offering.value r rs) = g.answer (r :: rs) := by
  have hcolumns : ((g.aggregates.filter fun a => !a.measure.isInternal).map fun a =>
        (a.outputName, (Summary.ofRecords g.lookup g.accumulators (r :: rs)).result a))
      = (g.aggregates.filter fun a => !a.measure.isInternal).map fun a =>
        (a.outputName, a.answer g.lookup (r :: rs)) := by
    apply List.map_congr_left
    intro a ha
    rw [accumulators, Summary.result_ofRecords g.lookup (List.mem_filter.1 ha).1]
  rw [resultRecord_eq, answer, ← hcolumns]
  rfl

/-! ## Samples of groups -/

variable {capacity : Nat} {bound : UInt64} {t : HashSample Group}

/-- The group that a sample holds under a hash is made of the records of that hash. -/
theorem exists_of_mem_entries (h : SampleOf g.offering capacity stream bound t)
    {e : UInt64 × Group} (he : e ∈ t.entries.entries) :
    ∃ r rs, g.offering.under stream e.1 = r :: rs ∧ e.2 = g.offering.value r rs := by
  have hget : t.get? e.1 = some e.2 := Keyed.get?_eq_some_iff.2 he
  have hoffered := h.offered_of_get? hget
  unfold Offering.offered at hoffered
  cases hunder : g.offering.under stream e.1 with
  | nil =>
    rw [hunder] at hoffered
    cases hoffered
  | cons r rs =>
    rw [hunder] at hoffered
    exact ⟨r, rs, rfl, (Option.some.inj hoffered).symm⟩

theorem carried_entries (h : SampleOf g.offering capacity stream bound t)
    (hsuits : ∀ r ∈ stream, g.Suits r) :
    ∀ e ∈ t.entries.entries, Carried Group.jsonDepth e.2 := by
  intro e he
  obtain ⟨r, rs, hunder, heq⟩ := exists_of_mem_entries h he
  have hr : r ∈ g.offering.under stream e.1 := hunder ▸ List.mem_cons_self
  rw [heq]
  exact (isExact_value (hsuits r (Offering.mem_under.1 hr).1) rs).carried

end Grouping

/-! ## Steps -/

namespace GroupBy

/-- A GROUP BY holds records: its sketch has gathered them. -/
structure Holds (g : Grouping) (capacity : Nat) (rs : List Record) (q : GroupBy) : Prop where
  grouping_eq : q.grouping = g
  gathered : Gathered g.offering capacity rs HashSample.noBound q.sketch.sketch

variable {g : Grouping} {capacity : Nat} {rs more stream : List Record} {r : Record} {q : GroupBy}
  {t : HashSample Group}

/-- A sample of groups makes a batch that answers for the records. -/
theorem answers_batchOf (hq : q.grouping = g)
    (h : SampleOf g.offering capacity stream HashSample.noBound t)
    (hlast : ∀ r ∈ stream, g.hashOf r ≠ HashSample.noBound) :
    g.Answers capacity stream (q.batchOf t) := by
  have hbelow : ∀ x ∈ g.offering.hashes stream, x < HashSample.noBound := by
    intro x hx
    obtain ⟨r, hr, rfl⟩ := Offering.mem_hashes.1 hx
    exact UInt64.lt_of_le_of_ne (le_noBound _) (hlast r hr)
  refine ⟨t.entries.keys, ?_, ?_, ?_⟩
  · refine List.Pairwise.map _ ?_ t.entries.ascending
    intro e e' hlt
    exact Std.compare_eq_lt.1 hlt
  · intro x
    have hkept : (t.get? x).isSome = true ↔ _ := h.kept_iff hbelow
    rw [h.capacity_eq, Offering.mem_hashes] at hkept
    rw [Keyed.mem_keys_iff, List.mem_map]
    exact hkept
  · show (t.entries.values.map q.grouping.resultRecord) = t.entries.keys.map _
    rw [hq, Keyed.values, Keyed.keys, List.map_map, List.map_map]
    apply List.map_congr_left
    intro e he
    obtain ⟨r, rs, hunder, heq⟩ := Grouping.exists_of_mem_entries h he
    show g.resultRecord e.2 = g.answer (g.offering.under stream e.1)
    rw [hunder, heq, Grouping.resultRecord_value]

/-- A GROUP BY before its first record holds none. -/
theorem holds_new {keys : List (String × Expr)} {aggregates : List Aggregate}
    {settings : Settings} (h : GroupBy.new keys aggregates settings = .ok q) (lookup : Lookup) :
    Holds ⟨keys, aggregates, settings.nullPolicy, lookup⟩ settings.groupEntries []
      (q.withLookup lookup) := by
  rw [eq_of_new h]
  exact ⟨rfl, gathered_new _⟩

variable (lawful : g.offering.Lawful (· ∈ stream))
include lawful

/-- A record that is taken is held. -/
theorem Holds.consume (h : Holds g capacity rs q) (hpolicy : g.policy = .skip) (hr : g.Suits r)
    (hmem : ∀ r' ∈ rs ++ [r], r' ∈ stream) :
    ∃ q', q.consume r = .done () q' ∧ Holds g capacity (rs ++ [r]) q' := by
  obtain ⟨kept, k', hadd, hk'⟩ := h.gathered.add lawful hmem
  refine ⟨q.withSketch k', ?_, h.grouping_eq, hk'⟩
  have hgroup : q.grouping.groupOf r = .ok (g.offering.value r []) := by
    rw [h.grouping_eq]
    exact Grouping.groupOf_of_suits hpolicy hr
  rw [consume_of_group hgroup]
  show ((Sketch.add q.sketch.sketch (g.offering.hash r) _).map _).within _ = _
  rw [hadd]
  rfl

/-- A result is made of the sample of what is held. -/
theorem Holds.result (h : Holds g capacity rs q) (hmem : ∀ r ∈ rs, r ∈ stream) :
    ∃ t q', q.result = .done (q.batchOf t) q' ∧
      SampleOf g.offering capacity rs HashSample.noBound t ∧ Holds g capacity rs q' := by
  obtain ⟨t, k, hread, ht, hk⟩ := h.gathered.read lawful hmem
  obtain ⟨t', k', hread', ht', hk'⟩ := hk.read lawful hmem
  obtain rfl := ht.unique ht'
  exact ⟨t, q.withSketch k', result_of_reads hread hread', ht, h.grouping_eq, hk'⟩

/-- The bytes for another GROUP BY are those of the sample of what is held. -/
theorem Holds.data (h : Holds g capacity rs q) (hmem : ∀ r ∈ rs, r ∈ stream) :
    ∃ t q', q.data = (t.toBytes, q') ∧ Sketch.result q.sketch.sketch = .done t q'.sketch.sketch ∧
      SampleOf g.offering capacity rs HashSample.noBound t ∧ Holds g capacity rs q' := by
  obtain ⟨t, k, hread, ht, hk⟩ := h.gathered.read lawful hmem
  refine ⟨t, q.withSketch k, ?_, hread, ht, h.grouping_eq, hk⟩
  simp only [GroupBy.data, lift, GroupSketch.bytes, GroupSketch.lift,
    bytes_of_result hread, Transition.within, withSketch]

/-- The records that another GROUP BY holds are held when its bytes are taken. -/
theorem Holds.combine (h : Holds g capacity rs q) {bs : Bytes} {used : Nat}
    (hread : HashSample.ofBytes bs = .ok (t, used))
    (ht : SampleOf g.offering capacity more HashSample.noBound t)
    (hmem : ∀ r ∈ rs ++ more, r ∈ stream) :
    ∃ q', q.combine bs = .done () q' ∧ Holds g capacity (rs ++ more) q' := by
  obtain ⟨k', hunion, hk'⟩ := h.gathered.unionBytes lawful hread ht.covers hmem
  rw [min_noBound] at hk'
  refine ⟨q.withSketch k', ?_, h.grouping_eq, hk'⟩
  show (((Sketch.unionBytes q.sketch.sketch bs).within _).map _).within _ = _
  rw [hunion]
  rfl

end GroupBy

end StreamQuery
