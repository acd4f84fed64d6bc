import Mathlib.Algebra.Group.Defs
import StreamQuery.Proofs.Aggregation.Reading
import StreamQuery.Proofs.Aggregation.Rejection
import StreamQuery.Proofs.Aggregation.Resetting
import StreamQuery.Proofs.Sample.Histories
import StreamQuery.Proofs.Sample.Smallest
import StreamQuery.Proofs.Sketch.Eager
set_option autoImplicit false

/-!
# Counting groups in two ways

A GROUP BY that only counts records and a COUNT DISTINCT over the same expressions take every record
and sample the same hashes.  What a sample keeps is decided by the hashes alone, so at every point
the two samples have one bound and one size, whenever each of them was read before.  They tell the
same accuracy, and as long as nothing was dropped the one counts the records of the other.
-/

namespace StreamQuery

/-! ## Samples of the same hashes -/

section Samples

variable {ρ ρ' α α' : Type} {o : Offering ρ α} {o' : Offering ρ' α'} {capacity : Nat}
  {items : List ρ} {items' : List ρ'} {bound : UInt64} {s : HashSample α} {t : HashSample α'}

/-- Samples of the same hashes have one bound, whatever the values are. -/
theorem SampleOf.bound_eq (h : SampleOf o capacity items bound s)
    (h' : SampleOf o' capacity items' bound t) (hashes : o.hashes items = o'.hashes items') :
    s.bound = t.bound := by
  have hcap : s.capacity = t.capacity := h.capacity_eq.trans h'.capacity_eq.symm
  exact UInt64.le_antisymm (h'.bound_le h.toSamples hcap.symm hashes.symm)
    (h.bound_le h'.toSamples hcap hashes)

/-- Samples of the same hashes tell one accuracy. -/
theorem SampleOf.accuracy_eq (h : SampleOf o capacity items bound s)
    (h' : SampleOf o' capacity items' bound t) (hashes : o.hashes items = o'.hashes items') :
    s.accuracy = t.accuracy := by
  have hbound : s.bound = t.bound := h.bound_eq h' hashes
  have hretained : s.retained = t.retained := by
    rw [h.toSamples.retained_eq_rank, h'.toSamples.retained_eq_rank, hbound, hashes]
  have hestimating : s.isEstimating = t.isEstimating := by
    rw [HashSample.isEstimating, HashSample.isEstimating, hbound]
  have hfraction : s.fraction = t.fraction := by
    rw [HashSample.fraction, HashSample.fraction, hestimating, hbound]
  have herror : s.standardError = t.standardError := by
    rw [HashSample.standardError, HashSample.standardError, hestimating, hretained]
  rw [HashSample.accuracy, HashSample.accuracy, hestimating, hfraction, hretained, herror]

/-- A sample of items holds nothing from its bound on. -/
theorem Samples.bounded (h : Samples o items bound s) : s.Bounded := by
  intro x a hx
  rw [← UInt64.not_le]
  intro hle
  have hnone : s.get? x = none := h.above x hle
  cases hnone.symm.trans hx

/-- A sample keeps fewer hashes than there are words. -/
theorem Samples.retained_lt (h : Samples o items bound s) : s.retained < 2 ^ 64 :=
  (HashSample.retained_le_bound h.bounded).trans_lt s.bound.toNat_lt

end Samples

/-! ## Estimates of whole numbers -/

/-- A number of hashes has as its estimate the whole number that it is in double precision. -/
theorem Value.ofEstimate_doubleOfInt {n : Nat} (h : n < 2 ^ 64) :
    Value.ofEstimate (Numeric.doubleOfInt n)
      = .long (Int64.ofNat (min (Numeric.significant n) (2 ^ 63 - 1))) := by
  have hfinite {m v : Nat} {s : Int} (hdenote : (Numeric.doubleOfInt n).datum
      = .finite false m s) (hvalue : m * 2 ^ s.toNat = v * 2 ^ (-s).toNat) :
      Value.ofEstimate (Numeric.doubleOfInt n) = .long (Int64.ofNat (min v (2 ^ 63 - 1))) := by
    have hunit : 0 < 2 * 2 ^ (-s).toNat := Nat.mul_pos Nat.two_pos (Nat.two_pow_pos _)
    -- the half that is added for rounding is lost
    have hround : (2 * m * 2 ^ s.toNat + 2 ^ (-s).toNat) / (2 * 2 ^ (-s).toNat) = v := by
      rw [Nat.mul_assoc, hvalue, Nat.mul_left_comm, Nat.mul_comm v,
        Nat.mul_add_div hunit, Nat.div_eq_of_lt (by omega), Nat.add_zero]
    rw [Value.ofEstimate, hdenote]
    show Value.long (Int64.ofNat (min (_ / _) _)) = _
    rw [hround]
  rcases Nat.eq_zero_or_pos n with rfl | hpos
  · rw [Numeric.significant_zero]
    apply hfinite (m := 0)
    · rw [Numeric.doubleOfInt_natCast]
      exact Numeric.datum_nearest_zero _
    · rw [Nat.zero_mul, Nat.zero_mul]
  · obtain ⟨m, s, -, hdenote, hvalue, -⟩ := Numeric.exists_significant hpos h
    exact hfinite hdenote (Numeric.mul_two_pow_of_whole hvalue)

/-! ## Taking records and reading -/

namespace Request

/-- Whether a request gives a record or reads. -/
def isLocal : Request → Bool
  | consume _ | data | result => true
  | combine _ | reset => false

/-- The records that a request gives. -/
def records : Request → List Record
  | consume r => [r]
  | combine _ | data | result | reset => []

end Request

/-- What a request keeps, of the records so far and the state, requests one after another keep. -/
theorem answers_keep {σ ω : Type} (serve : σ → Request → ω × σ) {P : List Record → σ → Prop}
    (hserve : ∀ {rs s c}, P rs s → c.isLocal = true → P (rs ++ c.records) (serve s c).2)
    {rs : List Record} {s : σ} (h : P rs s) {requests : List Request}
    (hlocal : ∀ c ∈ requests, c.isLocal = true) :
    P (rs ++ requests.flatMap Request.records) (answers serve s requests).2 := by
  induction requests generalizing rs s with
  | nil =>
    rw [List.flatMap_nil, List.append_nil]
    exact h
  | cons c rest ih =>
    have hstep := hserve h (hlocal c List.mem_cons_self)
    have hrest := ih hstep fun c hc => hlocal c (List.mem_cons_of_mem _ hc)
    rw [List.flatMap_cons, ← List.append_assoc]
    exact hrest

/-! ## Counting the records of groups -/

namespace Grouping

variable {g : Grouping}

/-- Only records are counted. -/
def Counts (g : Grouping) : Prop := ∀ a ∈ g.accumulators, a.measure = .count ∧ a.field = none

/-- A count of records that was asked for needs no more than itself. -/
theorem counts_of_requested
    (h : ∀ a ∈ g.aggregates, ∃ field name, Aggregate.request .count field name = .ok a) :
    g.Counts := by
  intro a ha
  rcases Aggregate.mem_of_mem_foldl_addTo ha with hnil | hneeded
  · cases hnil
  · obtain ⟨b, hb, hab⟩ := List.mem_flatMap.1 hneeded
    obtain ⟨field, name, hrequest⟩ := h b hb
    have hneeds : ¬(Measure.count.requiresField = true ∧ Aggregate.nonBlank field = none) := nofun
    rw [Aggregate.request, if_neg (by decide), if_neg hneeds] at hrequest
    split at hrequest
    · cases hrequest
    · cases hrequest
      rw [List.mem_singleton.1 hab]
      exact ⟨rfl, rfl⟩

/-- Any record can be counted. -/
theorem Counts.takes (h : g.Counts) (r : Record) : g.Takes r := by
  have hconsume : (Summary.start g.accumulators).consume g.lookup g.policy r
      = .done () (.valued g.accumulators fun _ => .long 1) := by
    apply Summary.consume_start_of_ok
    rintro ⟨measure, field, name⟩ ha
    obtain ⟨rfl, rfl⟩ := h _ ha
    rfl
  rw [Takes, groupOf, hconsume]
  exact ⟨_, rfl⟩

theorem Counts.combines (h : g.Counts) (stream : List Record) :
    g.ordered.Combines (· ∈ stream) := by
  refine combines_ordered (fun a ha => ?_) fun r _ => h.takes r
  simp only [Aggregate.Regroupable, (h a ha).1]

end Grouping

namespace GroupBy

variable {g : Grouping} {capacity : Nat} {rs : List Record} {q : GroupBy}

theorem Collects.serve (counts : g.Counts) {a : Aggregation} {c : Request}
    (h : ∃ q, a = .groupBy q ∧ Collects g capacity rs q) (hlocal : c.isLocal = true) :
    ∃ q, (a.serve c).2 = .groupBy q ∧ Collects g capacity (rs ++ c.records) q := by
  obtain ⟨q, rfl, h⟩ := h
  have hread {s : GroupByStep} (hs : s.isRead = true) :
      Collects g capacity (rs ++ []) (s.apply q) := by
    have hheld : s.held g rs = rs := GroupByStep.held_eq_of_isRead hs
    have hstep := h.apply (counts.combines rs) (s := s) (by cases s <;> first | rfl | cases hs)
      (fun r hr => hr) fun r hr => hheld ▸ hr
    rw [hheld] at hstep
    rw [List.append_nil]
    exact hstep
  cases c with
  | consume r =>
    have hheld : GroupByStep.held g rs (.consume r) = rs ++ [r] :=
      GroupByStep.held_consume_of_takes (counts.takes r) rs
    have hconsume := h.consume (counts.combines (rs ++ [r])) r fun r' hr => hheld ▸ hr
    rw [hheld] at hconsume
    exact ⟨_, rfl, hconsume⟩
  | data => exact ⟨_, rfl, hread (s := .data) rfl⟩
  | result => exact ⟨_, rfl, hread (s := .result) rfl⟩
  | combine bs => cases hlocal
  | reset => cases hlocal

/-- A record that can be counted is taken. -/
theorem Collects.consume_ok (counts : g.Counts) (h : Collects g capacity rs q) (r : Record) :
    (q.consume r).1 = .ok () := by
  obtain ⟨d, hd, rfl, -⟩ := h.gathers
  have hgroup : q.grouping.groupOf r = .ok (g.ordered.value r []) := by
    rw [h.grouping_eq]
    exact Grouping.groupOf_of_takes (counts.takes r)
  obtain ⟨kept, k, hadd, -⟩ := hd.add (counts.combines (d.updates ++ [r])) (x := r)
    fun _ hy => hy
  rw [consume_of_group hgroup]
  show (Sketch.add q.sketch.sketch (g.ordered.hash r) _).1.map _ = _
  rw [hadd]
  rfl

end GroupBy

/-! ## Counting distinct tuples -/

namespace CountDistinct

variable {start p : CountDistinct} {capacity : Nat} {rs : List Record}

/-- The sketch of a COUNT DISTINCT has gathered the hashes of the tuples that it took. -/
structure Collects (start : CountDistinct) (capacity : Nat) (rs : List Record)
    (p : CountDistinct) : Prop where
  fields_eq : p.fields = start.fields
  name_eq : p.name = start.name
  gathered : Gathered hashOffering capacity (rs.map fun r => Value.hashTuple (start.tupleOf r))
    HashSample.noBound p.sketch

theorem collects_new {fields : List Expr} {name : Option String} {settings : Settings}
    (h : CountDistinct.new fields name settings = .ok p) :
    p.fields = fields ∧ Collects p settings.countDistinctEntries [] p := by
  unfold CountDistinct.new at h
  split at h
  · cases h
  · cases h
    exact ⟨rfl, rfl, rfl, gathered_new _⟩

theorem Collects.consume (h : Collects start capacity rs p) (r : Record) :
    (p.consume r).1 = .ok () ∧ Collects start capacity (rs ++ [r]) (p.consume r).2 := by
  obtain ⟨kept, k, hadd, hk⟩ := h.gathered.add lawful_hashOffering
    (x := Value.hashTuple (start.tupleOf r)) fun _ _ => trivial
  have hadd' : Sketch.add p.sketch (Value.hashTuple (p.tupleOf r)) () = .done kept k := by
    rw [tupleOf, h.fields_eq]
    exact hadd
  have hconsume : p.consume r = .done () { p with sketch := k } := by
    rw [CountDistinct.consume, lift, hadd']
    rfl
  rw [hconsume]
  refine ⟨rfl, h.fields_eq, h.name_eq, ?_⟩
  rw [List.map_append]
  exact hk

theorem Collects.read (h : Collects start capacity rs p) :
    ∃ t k, Sketch.result p.sketch = .done t k ∧
      SampleOf hashOffering capacity (rs.map fun r => Value.hashTuple (start.tupleOf r))
        HashSample.noBound t ∧
      Collects start capacity rs { p with sketch := k } := by
  obtain ⟨t, k, hread, ht, hk⟩ := h.gathered.read lawful_hashOffering fun _ _ => trivial
  exact ⟨t, k, hread, ht, h.fields_eq, h.name_eq, hk⟩

/-- A result reads the sketch twice, for the estimate and for the accuracy. -/
theorem Collects.result (h : Collects start capacity rs p) :
    ∃ t p', p.result = .done (t.accuracy.describe
        (.ofRecords [Record.empty.set start.name (.ofEstimate t.estimate)])) p' ∧
      SampleOf hashOffering capacity (rs.map fun r => Value.hashTuple (start.tupleOf r))
        HashSample.noBound t ∧
      Collects start capacity rs p' := by
  obtain ⟨t, k, hread, ht, hk⟩ := h.read
  obtain ⟨t', k', hread', ht', hk'⟩ := hk.read
  obtain rfl := ht.unique ht'
  refine ⟨t, _, ?_, ht, hk'⟩
  have hestimate : DistinctSketch.estimate p.sketch = .done t.estimate k := by
    rw [DistinctSketch.estimate, hread]
    rfl
  have haccuracy : Sketch.accuracy k = .done t.accuracy k' := by
    rw [Sketch.accuracy, show Sketch.result k = _ from hread']
    rfl
  rw [CountDistinct.result, lift, hestimate, Transition.andThen_done, haccuracy, h.name_eq]
  rfl

theorem Collects.serve {a : Aggregation} {c : Request}
    (h : ∃ p, a = .countDistinct p ∧ Collects start capacity rs p) (hlocal : c.isLocal = true) :
    ∃ p, (a.serve c).2 = .countDistinct p ∧ Collects start capacity (rs ++ c.records) p := by
  obtain ⟨p, rfl, h⟩ := h
  cases c with
  | consume r => exact ⟨_, rfl, (h.consume r).2⟩
  | data =>
    obtain ⟨t, k, hread, -, hk⟩ := h.read
    rw [Request.records, List.append_nil]
    refine ⟨_, rfl, ?_⟩
    show Collects start capacity rs { p with sketch := (Sketch.result p.sketch).2 }
    rw [hread]
    exact hk
  | result =>
    obtain ⟨t, p', hresult, -, hp'⟩ := h.result
    rw [Request.records, List.append_nil]
    refine ⟨_, rfl, ?_⟩
    rw [hresult]
    exact hp'
  | combine bs => cases hlocal
  | reset => cases hlocal

end CountDistinct

/-! ## Agreement -/

/-- The keys of a GROUP BY and the tuples over the same expressions have the same hashes. -/
theorem hashes_ordered_eq {g : Grouping} {p : CountDistinct} (hlookup : g.lookup = Record.lookup)
    (hfields : p.fields = g.keys.map Prod.snd) (rs : List Record) :
    g.ordered.hashes rs
      = hashOffering.hashes (rs.map fun r => Value.hashTuple (p.tupleOf r)) := by
  have htuple (r : Record) : p.tupleOf r = g.keyOf r := by
    rw [CountDistinct.tupleOf, Grouping.keyOf, hfields, hlookup, List.map_map]
    rfl
  simp only [htuple, Offering.hashes, List.map_map]
  rfl

variable {g : Grouping} {start p : CountDistinct} {q : GroupBy} {capacity : Nat}
  {rs : List Record}

/-- What is shown of the same records by a GROUP BY that only counts and by a COUNT DISTINCT. -/
theorem GroupBy.Collects.result_agrees (h : GroupBy.Collects g capacity rs q) (counts : g.Counts)
    (h' : CountDistinct.Collects start capacity rs p) (hlookup : g.lookup = Record.lookup)
    (hfields : start.fields = g.keys.map Prod.snd) :
    ∃ (accuracy : Accuracy) (shown : List Record) (v : Value),
      q.result.1 = .ok (accuracy.describe (.ofRecords shown)) ∧
      p.result.1 = .ok (accuracy.describe (.ofRecords [Record.empty.set start.name v])) ∧
      shown.length = accuracy.retained ∧ accuracy.retained ≤ max capacity 1 ∧
      (accuracy.estimated = false →
        v = .long (Int64.ofNat (min (Numeric.significant shown.length) (2 ^ 63 - 1))) ∧
        (shown.length ≤ 2 ^ 53 → v = .long (Int64.ofNat shown.length))) := by
  obtain ⟨t, k, hresult, ht, -⟩ := h.result (counts.combines rs) fun _ hr => hr
  obtain ⟨t', p', hresult', ht', -⟩ := h'.result
  have haccuracy : t.accuracy = t'.accuracy :=
    ht.accuracy_eq ht' (hashes_ordered_eq hlookup hfields rs)
  have hlength : (t.values.map q.grouping.resultRecord).length = t.accuracy.retained :=
    length_records_batchOf q t
  refine ⟨t.accuracy, t.values.map q.grouping.resultRecord, .ofEstimate t'.estimate, ?_, ?_,
    hlength, ?_, fun hexact => ?_⟩
  · rw [hresult]
    rfl
  · rw [hresult', haccuracy]
    rfl
  · calc t.accuracy.retained = rank _ t.bound := ht.toSamples.retained_eq_rank
      _ ≤ t.capacity := ht.room
      _ = max capacity 1 := ht.capacity_eq
  · have hestimating : t'.isEstimating = false :=
      (congrArg Accuracy.estimated haccuracy).symm.trans hexact
    have hestimate : t'.estimate = Numeric.doubleOfInt t'.retained := by
      rw [HashSample.estimate, hestimating]
      rfl
    have hretained : (t.values.map q.grouping.resultRecord).length = t'.retained :=
      hlength.trans (congrArg Accuracy.retained haccuracy)
    rw [hestimate, hretained, Value.ofEstimate_doubleOfInt ht'.toSamples.retained_lt]
    refine ⟨rfl, fun hfew => ?_⟩
    rw [Numeric.significant_eq hfew, Nat.min_eq_left (by omega)]

/-- A GROUP BY that only counts records and a COUNT DISTINCT of one capacity over the same
expressions, which were given the same records and were read whenever, refuse no record and tell
one accuracy.  The GROUP BY has as many result records as were retained.  As long as that is no
estimate, the COUNT DISTINCT has their number, which it computes in double precision: that is exact
up to `2 ^ 53` records, and so for any capacity that memory has room for. -/
theorem Aggregation.countDistinct_agrees {keys : List (String × Expr)} {aggregates : List Aggregate}
    {name : Option String} {settings settings' : Settings}
    (hq : GroupBy.new keys aggregates settings = .ok q)
    (hp : CountDistinct.new (keys.map Prod.snd) name settings' = .ok p)
    (hcapacity : settings.groupEntries = settings'.countDistinctEntries)
    (hcounts : ∀ a ∈ aggregates, ∃ field name, Aggregate.request .count field name = .ok a)
    {requests requests' : List Request} (hlocal : ∀ c ∈ requests, c.isLocal = true)
    (hlocal' : ∀ c ∈ requests', c.isLocal = true)
    (hrecords : requests.flatMap Request.records = requests'.flatMap Request.records) :
    (∀ r, ((answers Aggregation.serve (.groupBy q) requests).2.consume r).1 = .ok () ∧
      ((answers Aggregation.serve (.countDistinct p) requests').2.consume r).1 = .ok ()) ∧
    ∃ (accuracy : Accuracy) (shown : List Record) (v : Value),
      (answers Aggregation.serve (.groupBy q) requests).2.result.1
        = .ok (accuracy.describe (.ofRecords shown)) ∧
      (answers Aggregation.serve (.countDistinct p) requests').2.result.1
        = .ok (accuracy.describe (.ofRecords [Record.empty.set p.name v])) ∧
      shown.length = accuracy.retained ∧ accuracy.retained ≤ max settings.groupEntries 1 ∧
      (accuracy.estimated = false →
        v = .long (Int64.ofNat (min (Numeric.significant shown.length) (2 ^ 63 - 1))) ∧
        (shown.length ≤ 2 ^ 53 → v = .long (Int64.ofNat shown.length))) := by
  have hsame : q.withLookup Record.lookup = q := by
    rw [GroupBy.eq_of_new hq]
    rfl
  have hstart := GroupBy.collects_new hq Record.lookup
  rw [hsame] at hstart
  obtain ⟨hfields, hstart'⟩ := CountDistinct.collects_new hp
  have counts : (⟨keys, aggregates, settings.nullPolicy, Record.lookup⟩ : Grouping).Counts :=
    Grouping.counts_of_requested hcounts
  obtain ⟨q', hlast, hq'⟩ := answers_keep Aggregation.serve
    (P := fun rs a => ∃ q, a = .groupBy q ∧ GroupBy.Collects _ settings.groupEntries rs q)
    (GroupBy.Collects.serve counts) ⟨q, rfl, hstart⟩ hlocal
  obtain ⟨p', hlast', hp'⟩ := answers_keep Aggregation.serve
    (P := fun rs a => ∃ p', a = .countDistinct p' ∧
      CountDistinct.Collects p settings'.countDistinctEntries rs p')
    CountDistinct.Collects.serve ⟨p, rfl, hstart'⟩ hlocal'
  rw [hlast, hlast']
  rw [← hrecords, ← hcapacity] at hp'
  exact ⟨fun r => ⟨hq'.consume_ok counts r, (hp'.consume r).1⟩,
    hq'.result_agrees counts hp' rfl hfields⟩

/-- The records of every country are counted. -/
def countsByCountry : GroupBy :=
  ⟨⟨[("country", .column "country")], [⟨.count, none, some "n"⟩], .skip, Record.lookup⟩, .new 16⟩

/-- The countries are counted. -/
def countries : CountDistinct := ⟨[.column "country"], "COUNT DISTINCT", Sketch.new 16⟩

/-- Two records, one without a country, that are read in between. -/
def readBetween : List Request :=
  [.consume (.ofList [("country", .string "DE")]), .result, .consume .empty]

/-- The same records, read before. -/
def readBefore : List Request :=
  [.data, .consume (.ofList [("country", .string "DE")]), .consume .empty]

theorem countDistinct_agrees_countries :
    (GroupBy.new [("country", .column "country")] [⟨.count, none, some "n"⟩] { groupEntries := 16 }
        = .ok countsByCountry ∧
      CountDistinct.new ([("country", Expr.column "country")].map Prod.snd) none
        { countDistinctEntries := 16 } = .ok countries) ∧
    (∀ r, ((answers Aggregation.serve (.groupBy countsByCountry) readBetween).2.consume r).1
        = .ok () ∧
      ((answers Aggregation.serve (.countDistinct countries) readBefore).2.consume r).1 = .ok ()) ∧
    ∃ (accuracy : Accuracy) (shown : List Record) (v : Value),
      (answers Aggregation.serve (.groupBy countsByCountry) readBetween).2.result.1
        = .ok (accuracy.describe (.ofRecords shown)) ∧
      (answers Aggregation.serve (.countDistinct countries) readBefore).2.result.1
        = .ok (accuracy.describe (.ofRecords [Record.empty.set countries.name v])) ∧
      shown.length = accuracy.retained ∧ accuracy.retained ≤ max 16 1 ∧
      (accuracy.estimated = false →
        v = .long (Int64.ofNat (min (Numeric.significant shown.length) (2 ^ 63 - 1))) ∧
        (shown.length ≤ 2 ^ 53 → v = .long (Int64.ofNat shown.length))) := by
  have hq : GroupBy.new [("country", .column "country")] [⟨.count, none, some "n"⟩]
      { groupEntries := 16 } = .ok countsByCountry := rfl
  have hp : CountDistinct.new ([("country", Expr.column "country")].map Prod.snd) none
      { countDistinctEntries := 16 } = .ok countries := rfl
  have hcount : ∀ a ∈ [(⟨.count, none, some "n"⟩ : Aggregate)],
      ∃ field name, Aggregate.request .count field name = .ok a := by
    intro a ha
    rw [List.mem_singleton.1 ha]
    exact ⟨none, some "n", rfl⟩
  refine ⟨⟨hq, hp⟩, ?_⟩
  refine Aggregation.countDistinct_agrees hq hp rfl hcount ?_ ?_ rfl
  · intro c hc
    simp only [readBetween, List.mem_cons, List.not_mem_nil, or_false] at hc
    rcases hc with rfl | rfl | rfl <;> rfl
  · intro c hc
    simp only [readBefore, List.mem_cons, List.not_mem_nil, or_false] at hc
    rcases hc with rfl | rfl | rfl <;> rfl

end StreamQuery
