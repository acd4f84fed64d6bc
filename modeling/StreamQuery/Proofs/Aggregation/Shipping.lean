import StreamQuery.Proofs.Aggregation.Reading
import StreamQuery.Proofs.Aggregation.Rejection
import StreamQuery.Proofs.Json.Partials
import StreamQuery.Proofs.Sketch.Unfailing
set_option autoImplicit false

/-!
# Partial results that are sent

A GROUP BY that takes records and nothing else can always be read, and sent as long as its bytes can
be counted in the length of a frame.  What arrives at a fresh GROUP BY is what was sent with every
value read back by itself: if one of the values cannot be read nothing arrives, and where one is
read as another value, that other value is what arrives.
-/

namespace StreamQuery

namespace Grouping

variable {g : Grouping} {capacity : Nat} {s t : HashSample Group}

/-- Groups of records from elsewhere merge with a sample, whatever room there was for them. -/
theorem Collected.take (h : g.Collected capacity s)
    (h' : t.entries.All fun _ group => g.Collects group) :
    ∃ u, s.merge t = .done () u ∧ g.Collected capacity u := by
  obtain ⟨u, hdone, hall, hfits⟩ := HashSample.merge_done_of_all h.collects h'
    fun _ _ _ hp ha => hp.combine ha
  have hformed := h.toFormed.merge t
  rw [hdone] at hformed
  exact ⟨u, hdone, hformed, hfits, hall⟩

/-- Samples of groups of records merge to one. -/
theorem Collected.merge (h : g.Collected capacity s) (h' : g.Collected capacity t) :
    ∃ u, s.merge t = .done () u ∧ g.Collected capacity u :=
  h.take h'.collects

/-- A sketch that takes records and nothing else has samples of groups of records. -/
theorem lasting_collected (g : Grouping) (capacity : Nat) :
    Lasting (HashSample.new capacity) (g.Collected capacity) (g.Collected capacity) where
  blank := g.collected_new capacity
  clear h := h.clear
  clear_unions h := h.clear
  publish h := h
  merge h h' := by
    obtain ⟨u, hdone, hu⟩ := h.merge h'
    rw [hdone]
    exact hu

theorem mergeable_collected (g : Grouping) (capacity : Nat) : Mergeable (g.Collected capacity) := by
  intro s t h h'
  obtain ⟨u, hdone, -⟩ := h.merge h'
  exact ⟨u, hdone⟩

end Grouping

namespace GroupBy

variable {q q' q₀ : GroupBy} {keys : List (String × Expr)} {aggregates : List Aggregate}
  {settings : Settings} {lookup : Lookup}

/-! ## States -/

/-- A state that a GROUP BY comes to without partial results of others. -/
structure Local (g : Grouping) (capacity : Nat) (q : GroupBy) : Prop where
  grouping_eq : q.grouping = g
  coherent : Coherent q.sketch.sketch
  samples : q.sketch.sketch.parts.Have (.new capacity) (g.Collected capacity) (g.Collected capacity)

variable {g : Grouping} {capacity : Nat}

/-- A GROUP BY of its own records can be read, and read again. -/
theorem Local.read (h : Local g capacity q) :
    ∃ t k, Sketch.result q.sketch.sketch = .done t k ∧ g.Collected capacity t ∧
      Sketch.result k = .done t k :=
  (g.lasting_collected capacity).result_done (g.mergeable_collected capacity) h.samples h.coherent

theorem Local.apply (h : Local g capacity q) {s : GroupByStep} (hlocal : s.isLocal = true) :
    Local g capacity (s.apply q) := by
  have lasting := g.lasting_collected capacity
  have hcoherent := coherent_apply h.coherent s
  cases s with
  | consume r =>
    obtain ⟨rfl, -, hsamples⟩ := h
    rcases consume_cases hsamples r with ⟨k, hconsume, hk, -⟩ | ⟨e, hconsume, -⟩
    · simp only [GroupByStep.apply, hconsume] at hcoherent ⊢
      exact ⟨rfl, hcoherent, hk⟩
    · simp only [GroupByStep.apply, hconsume] at hcoherent ⊢
      exact ⟨rfl, hcoherent, hsamples⟩
  | combine bs => cases hlocal
  | data => exact ⟨h.grouping_eq, hcoherent, lasting.result h.samples⟩
  | result =>
    have hread : GroupByStep.result.apply q = q.withSketch (Sketch.result q.sketch.sketch).2 :=
      snd_result h.coherent
    rw [hread] at hcoherent ⊢
    exact ⟨h.grouping_eq, hcoherent, lasting.result h.samples⟩
  | reset => exact ⟨h.grouping_eq, hcoherent, lasting.reset h.samples⟩

theorem Local.run (h : Local g capacity q) {steps : List GroupByStep}
    (hlocal : ∀ s ∈ steps, s.isLocal = true) :
    Local g capacity (steps.foldl GroupByStep.apply q) := by
  induction steps generalizing q with
  | nil => exact h
  | cons s rest ih =>
    exact ih (h.apply (hlocal s List.mem_cons_self))
      fun s hs => hlocal s (List.mem_cons_of_mem _ hs)

theorem local_new (h : GroupBy.new keys aggregates settings = .ok q) (lookup : Lookup) :
    Local ⟨keys, aggregates, settings.nullPolicy, lookup⟩ settings.groupEntries
      (q.withLookup lookup) := by
  rw [eq_of_new h]
  exact ⟨rfl, coherent_new _, (Grouping.lasting_collected _ _).new⟩

/-! ## Arriving -/

/-- What is read back of a sample is formed as it was, and no larger. -/
theorem formed_readBack {s t : HashSample Group} (h : s.readBack = some t)
    (hs : s.Formed capacity) (hfits : s.Fits) : t.Formed capacity ∧ t.Fits := by
  obtain ⟨hcapacity, hbound, hkeys⟩ := HashSample.readBack_shape h
  refine ⟨⟨hcapacity.trans hs.capacity_eq, ?_⟩, ?_⟩
  · refine Keyed.All.of_entries fun e he => ?_
    have hkey : e.1 ∈ s.entries.keys := hkeys ▸ List.mem_map_of_mem he
    obtain ⟨e', he', heq⟩ := List.mem_map.1 hkey
    rw [hbound, ← heq]
    exact hs.bounded.mem he'
  · have hlength := congrArg List.length hkeys
    simp only [Keyed.keys, List.length_map] at hlength
    show t.entries.entries.length ≤ t.capacity
    rw [hlength, hcapacity]
    exact hfits

/-- A fresh GROUP BY that takes a sample has the result of that sample. -/
theorem combine_new (h : GroupBy.new keys aggregates settings = .ok q')
    (hq : q'.withLookup lookup = q₀) {bs : Bytes} {used : Nat} {t : HashSample Group}
    (hread : HashSample.ofBytes bs = .ok (t, used)) (ht : t.Formed settings.groupEntries)
    (hfits : t.Fits) :
    (q₀.combine bs).1 = .ok () ∧ (q₀.combine bs).2.result.1 = .ok (q₀.batchOf t) := by
  obtain ⟨k, k', hunion, hresult, hagain⟩ := unionBytes_new hread ht hfits
  have hsketch : q₀.sketch.sketch = Sketch.new settings.groupEntries := by
    rw [← hq, eq_of_new h]
    rfl
  have hcombine : q₀.combine bs = .done () (q₀.withSketch k) := by
    show (((Sketch.unionBytes q₀.sketch.sketch bs).within _).map _).within _ = _
    rw [hsketch, hunion]
    rfl
  rw [hcombine]
  refine ⟨rfl, ?_⟩
  show (q₀.withSketch k).result.1 = _
  rw [result_of_reads (q := q₀.withSketch k) hresult hagain]
  rfl

/-- A fresh GROUP BY takes the bytes of a sample exactly if all values of the sample are legible,
and reads then the sample as its values are read back, which is the sample itself if they all
survive. -/
theorem combine_toBytes (hnew : GroupBy.new keys aggregates settings = .ok q')
    (hq : q'.withLookup lookup = q₀) (hcap : settings.groupEntries < 2 ^ 64)
    {t : HashSample Group} (ht : t.Formed settings.groupEntries) (hfits : t.Fits) {bs : Bytes}
    (hbs : t.toBytes = .ok bs) :
    ((q₀.combine bs).1 = .ok () ↔ ∀ group ∈ t.values, group.Legible Group.partRoom) ∧
      ((q₀.combine bs).1 = .ok () ∨ (q₀.combine bs).1 = .error (.sketch .undecodable)) ∧
      (∀ t', t.readBack = some t' → (q₀.combine bs).2.result.1 = .ok (q₀.batchOf t')) ∧
      ((∀ group ∈ t.values, group.Survives Group.partRoom) →
        (q₀.combine bs).2.result.1 = .ok (q₀.batchOf t)) := by
  have hcapacity : t.capacity < 2 ^ 64 := by
    rw [ht.capacity_eq]
    omega
  have hback := HashSample.ofBytes_toBytes_readBack hbs hcapacity
    (fun e _ => e.2.exists_written) []
  rw [List.append_nil] at hback
  have hlegible := HashSample.isSome_readBack_iff_legible (s := t)
  cases ht' : t.readBack with
  | none =>
    rw [ht'] at hback hlegible
    have hrefused : (q₀.combine bs).1 = .error (.sketch .undecodable) := by
      rw [combine_of_unreadable hback]
      rfl
    refine ⟨⟨fun hok => ?_, fun hall => ?_⟩, .inr hrefused, fun _ hnone => ?_, fun hall => ?_⟩
    · cases hrefused.symm.trans hok
    · cases hlegible.2 hall
    · cases hnone
    · cases ht'.symm.trans (HashSample.readBack_of_survives hall)
  | some t' =>
    rw [ht'] at hback hlegible
    obtain ⟨hformed, hfits'⟩ := formed_readBack ht' ht hfits
    obtain ⟨hok, harrives⟩ := combine_new hnew hq hback hformed hfits'
    refine ⟨⟨fun _ => hlegible.1 rfl, fun _ => hok⟩, .inl hok, ?_, fun hall => ?_⟩
    · rintro _ ⟨⟩
      exact harrives
    · cases ht'.symm.trans (HashSample.readBack_of_survives hall)
      exact harrives

/-- A GROUP BY of its own records has a sample that makes its result and its bytes.  A fresh GROUP
BY takes the bytes exactly if all values of the sample are legible, and has then the result of the
sample as its values are read back; it is the result that was there if they all survive. -/
theorem partial_arrives {steps : List GroupByStep}
    (hnew : GroupBy.new keys aggregates settings = .ok q') (hq : q'.withLookup lookup = q₀)
    (hcap : settings.groupEntries < 2 ^ 64) (hlocal : ∀ s ∈ steps, s.isLocal = true) :
    ∃ t, (steps.foldl GroupByStep.apply q₀).result.1 = .ok (q₀.batchOf t) ∧
      (steps.foldl GroupByStep.apply q₀).data.1 = t.toBytes ∧
      ((∃ bs, t.toBytes = .ok bs) ↔ t.toJson.bytes.length < 256 ^ Bytes.headerSize) ∧
      ∀ bs, t.toBytes = .ok bs →
        ((q₀.combine bs).1 = .ok () ↔ ∀ group ∈ t.values, group.Legible Group.partRoom) ∧
        ((q₀.combine bs).1 = .ok () ∨ (q₀.combine bs).1 = .error (.sketch .undecodable)) ∧
        (∀ t', t.readBack = some t' → (q₀.combine bs).2.result.1 = .ok (q₀.batchOf t')) ∧
        ((∀ group ∈ t.values, group.Survives Group.partRoom) →
          (q₀.combine bs).2.result.1 = .ok (q₀.batchOf t)) := by
  have hstart := local_new hnew lookup
  rw [hq] at hstart
  have hrun := hstart.run hlocal
  obtain ⟨t, k, hread, ht, hagain⟩ := hrun.read
  have hresult := result_of_reads hread hagain
  have hbatch : (steps.foldl GroupByStep.apply q₀).batchOf t = q₀.batchOf t := by
    rw [batchOf, batchOf, hrun.grouping_eq, hstart.grouping_eq]
  refine ⟨t, by rw [hresult, hbatch]; rfl, ?_, Bytes.exists_frame_iff, ?_⟩
  · show (Sketch.result _).1.bind HashSample.toBytes = _
    rw [hread]
    rfl
  · intro bs hbs
    exact combine_toBytes hnew hq hcap ht.toFormed ht.fits hbs

/-! ## A total that is not finite -/

theorem partial_arrives_runningTotal :
    (GroupBy.new [] [⟨.sum, some "v", some "total"⟩] { groupEntries := 16 } = .ok runningTotal ∧
      runningTotal.withLookup Record.lookup = runningTotal ∧ 16 < 2 ^ 64 ∧
      ∀ s ∈ readAfterFirst (.long 5) (.integer 3) .null, s.isLocal = true) ∧
    ∃ t, ((readAfterFirst (.long 5) (.integer 3) .null).foldl GroupByStep.apply
          runningTotal).result.1 = .ok (runningTotal.batchOf t) ∧
      ((readAfterFirst (.long 5) (.integer 3) .null).foldl GroupByStep.apply runningTotal).data.1
        = t.toBytes ∧
      ((∃ bs, t.toBytes = .ok bs) ↔ t.toJson.bytes.length < 256 ^ Bytes.headerSize) ∧
      ∀ bs, t.toBytes = .ok bs →
        ((runningTotal.combine bs).1 = .ok () ↔
          ∀ group ∈ t.values, group.Legible Group.partRoom) ∧
        ((runningTotal.combine bs).1 = .ok () ∨
          (runningTotal.combine bs).1 = .error (.sketch .undecodable)) ∧
        (∀ t', t.readBack = some t' →
          (runningTotal.combine bs).2.result.1 = .ok (runningTotal.batchOf t')) ∧
        ((∀ group ∈ t.values, group.Survives Group.partRoom) →
          (runningTotal.combine bs).2.result.1 = .ok (runningTotal.batchOf t)) :=
  ⟨⟨new_runningTotal, rfl, by decide, isLocal_readAfterFirst _ _ _⟩,
    partial_arrives new_runningTotal rfl (by decide) (isLocal_readAfterFirst _ _ _)⟩

/-- A record whose amount is infinite. -/
def infiniteAmount : Record := amount (.double (Numeric.doubleOfWord 0x7ff0000000000000))

/-- An infinite total is computed and sent, but no GROUP BY takes it. -/
theorem infinite_total_does_not_arrive :
    GroupBy.new [] [⟨.sum, some "v", some "total"⟩] { groupEntries := 16 } = .ok runningTotal ∧
      (runningTotal.consume infiniteAmount).1 = .ok () ∧
      ∃ bs, (runningTotal.consume infiniteAmount).2.data.1 = .ok bs ∧
        (runningTotal.combine bs).1 = .error (.sketch .undecodable) := by
  have hconsume : (runningTotal.consume infiniteAmount).1 = .ok () := by decide +kernel
  have hcombine : (runningTotal.consume infiniteAmount).2.data.1.map
      (fun bs => (runningTotal.combine bs).1) = .ok (.error (.sketch .undecodable)) := by
    decide +kernel
  obtain ⟨bs, hdata, hrefused⟩ := Outcome.exists_of_map_eq_ok hcombine
  exact ⟨new_runningTotal, hconsume, bs, hdata, hrefused⟩

end GroupBy

end StreamQuery
