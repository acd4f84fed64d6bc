import StreamQuery.Proofs.Aggregate.Refusals
import StreamQuery.Proofs.Aggregation.Rereading
import StreamQuery.Proofs.Sketch.Keeping
set_option autoImplicit false

/-!
# Records that a GROUP BY refuses

A GROUP BY refuses a record exactly if one of its accumulators does, and then the record leaves no
trace.  What stands in the way is that the group of the record must still be put to the groups
collected before it: but these are all made of records, whatever was taken from other GROUP BYs and
however a merge has failed, and so they never refuse another one.
-/

namespace StreamQuery

/-! ## Groups of records -/

namespace Grouping

variable {g : Grouping} {r : Record}

/-- A group whose running values came from records. -/
def Collects (g : Grouping) (group : Group) : Prop := group.summary.IsTally g.accumulators

/-- A record makes no group exactly if an accumulator refuses it. -/
theorem groupOf_error_iff (hlookup : g.lookup.FailsByMissing) :
    (∃ e, g.groupOf r = .error e) ↔ ∃ a ∈ g.accumulators, a.Refuses g.lookup g.policy r := by
  constructor
  · rintro ⟨e, he⟩
    by_contra hnone
    -- without a refusal every accumulator has a value after the record
    have hvalues : ∀ a ∈ g.accumulators, ∃ v, a.alone g.lookup g.policy r = .ok v := by
      intro a ha
      cases hv : a.alone g.lookup g.policy r with
      | error e => exact absurd ⟨a, ha, (Aggregate.alone_error_iff hlookup).1 ⟨e, hv⟩⟩ hnone
      | ok v => exact ⟨v, rfl⟩
    choose! value hvalue using hvalues
    rw [groupOf, Summary.consume_start_of_ok hvalue] at he
    cases he
  · rintro ⟨a, ha, hrefuses⟩
    obtain ⟨e, he⟩ := (Aggregate.alone_error_iff hlookup).2 hrefuses
    obtain ⟨e', hconsume⟩ := Summary.consume_start_of_error ha he
    refine ⟨e', ?_⟩
    rw [groupOf, hconsume]
    rfl

/-- The group of a record is one of records. -/
theorem collects_of_groupOf {group : Group} (h : g.groupOf r = .ok group) : g.Collects group := by
  have hvalues : ∀ a ∈ g.accumulators, ∃ v, a.alone g.lookup g.policy r = .ok v := by
    intro a ha
    cases hv : a.alone g.lookup g.policy r with
    | error e =>
      obtain ⟨e', hconsume⟩ := Summary.consume_start_of_error ha hv
      rw [groupOf, hconsume] at h
      cases h
    | ok v => exact ⟨v, rfl⟩
  choose! value hvalue using hvalues
  rw [groupOf, Summary.consume_start_of_ok hvalue] at h
  cases h
  exact ⟨value, rfl, fun a ha => Aggregate.isTally_alone (hvalue a ha)⟩

/-- Groups of records combine to one. -/
theorem Collects.combine {group other : Group} (h : g.Collects group) (h' : g.Collects other) :
    ∃ both, Combine.combine group other = .done () both ∧ g.Collects both := by
  obtain ⟨both, hcombine, hboth⟩ :=
    Summary.IsTally.combine (Aggregate.distinct_accumulators g.aggregates) h h'
  refine ⟨{ group with summary := both }, ?_, hboth⟩
  show (group.summary.combine other.summary).within _ = _
  rw [hcombine]
  rfl

/-! ## Samples of groups -/

/-- A sample as a GROUP BY adds to it: it holds groups of records, and no more of them than there is
room for. -/
structure Collected (g : Grouping) (capacity : Nat) (s : HashSample Group) : Prop
    extends s.Formed capacity where
  fits : s.Fits
  collects : s.entries.All fun _ group => g.Collects group

theorem collected_new (g : Grouping) (capacity : Nat) :
    g.Collected capacity (HashSample.new capacity) :=
  ⟨HashSample.formed_new capacity, Nat.zero_le _, Keyed.All.empty⟩

theorem Collected.clear {capacity : Nat} {s : HashSample Group} (h : g.Collected capacity s) :
    g.Collected capacity s.clear :=
  ⟨h.toFormed.clear, Nat.zero_le _, Keyed.All.empty⟩

theorem lasting_samples (g : Grouping) (capacity : Nat) :
    Lasting (HashSample.new capacity) (g.Collected capacity) (HashSample.Formed capacity) where
  blank := g.collected_new capacity
  clear h := h.clear
  clear_unions h := h.clear
  publish h := h.toFormed
  merge h _ := h.merge _

/-- A group of records can be added to others. -/
theorem Collected.add {capacity : Nat} {s : HashSample Group} {group : Group}
    (h : g.Collected capacity s) (hgroup : g.Collects group) (hash : UInt64) :
    ∃ kept s', s.add hash group = .done kept s' ∧ g.Collected capacity s' := by
  have hcombine : ∀ p, g.Collects p → g.Collects (Combine.combine p group).2 := by
    intro p hp
    obtain ⟨both, hboth, hcollects⟩ := hp.combine hgroup
    rw [hboth]
    exact hcollects
  obtain ⟨kept, s', hadd⟩ := HashSample.add_done (s := s) (h := hash) (a := group) (by
    intro p hp
    obtain ⟨both, hboth, -⟩ := (h.collects _ _ hp).combine hgroup
    rw [hboth]
    rfl)
  have hcapacity := HashSample.capacity_add s hash group
  have hbounded := h.bounded.add hash group
  have hcollects := HashSample.all_add (h := hash) h.collects hgroup hcombine
  rw [hadd] at hcapacity hbounded hcollects
  exact ⟨kept, s', hadd, ⟨hcapacity.trans h.capacity_eq, hbounded⟩,
    HashSample.fits_of_add h.fits hadd, hcollects⟩

end Grouping

/-! ## States -/

namespace GroupBy

variable {q : GroupBy} {r : Record}

/-- What the samples of a GROUP BY are at any time: the updates hold groups of records, while merges
may leave groups from elsewhere in the others, and too many of them. -/
abbrev Regular (q : GroupBy) : Prop :=
  q.sketch.sketch.parts.Have (.new q.sketch.capacity) (q.grouping.Collected q.sketch.capacity)
    (HashSample.Formed q.sketch.capacity)

/-- A record that makes a group is taken, and one that makes none leaves all as it was. -/
theorem consume_cases {capacity : Nat} {blank : HashSample Group} {V : HashSample Group → Prop}
    (h : q.sketch.sketch.parts.Have blank (q.grouping.Collected capacity) V) (r : Record) :
    (∃ k, q.consume r = .done () (q.withSketch k) ∧
        k.parts.Have blank (q.grouping.Collected capacity) V ∧
        ∃ group, q.grouping.groupOf r = .ok group) ∨
      ∃ e, q.consume r = .fail e q ∧ q.grouping.groupOf r = .error e := by
  cases hgroup : q.grouping.groupOf r with
  | error e => exact .inr ⟨e, consume_of_error hgroup, rfl⟩
  | ok group =>
    have hcollects := Grouping.collects_of_groupOf hgroup
    obtain ⟨kept, k, hadd, hk⟩ := h.add_done (h.updates.add hcollects (Value.hashTuple group.key))
    refine .inl ⟨k, ?_, hk, group, rfl⟩
    rw [consume_of_group hgroup, hadd]
    rfl

/-- A result leaves what a read of the sketch leaves. -/
theorem snd_result (h : Coherent q.sketch.sketch) :
    q.result.2 = q.withSketch (Sketch.result q.sketch.sketch).2 := by
  rw [result_eq h]
  rfl

theorem Regular.apply (h : q.Regular) (hk : Coherent q.sketch.sketch) (s : GroupByStep) :
    (s.apply q).Regular := by
  have lasting := Grouping.lasting_samples q.grouping q.sketch.capacity
  cases s with
  | consume r =>
    rcases consume_cases h r with ⟨k, hconsume, hk, -⟩ | ⟨e, hconsume, -⟩
    · simp only [GroupByStep.apply, hconsume]
      exact hk
    · simp only [GroupByStep.apply, hconsume]
      exact h
  | combine bs => exact SampleParts.Have.unionBytes h (fun t hs => hs.merge t) bs
  | data => exact lasting.result h
  | result =>
    simp only [GroupByStep.apply, snd_result hk]
    exact lasting.result h
  | reset => exact lasting.reset h

theorem Reachable.regular (h : q.Reachable) : q.Regular := by
  induction h with
  | new lookup hnew =>
    rw [eq_of_new hnew]
    exact (Grouping.lasting_samples _ _).new
  | step s hreach ih => exact ih.apply hreach.coherent s

/-! ## Refusing a record -/

/-- A GROUP BY refuses a record exactly if one of its accumulators does: for a missing field under
the strict policy, or for a field that is no number and is computed with.  The whole state is then
what it was. -/
theorem consume_fails_iff (h : q.Reachable) (hlookup : q.grouping.lookup.FailsByMissing)
    (r : Record) :
    ((∃ e, (q.consume r).1 = .error e) ↔
        ∃ a ∈ q.grouping.accumulators, a.Refuses q.grouping.lookup q.grouping.policy r) ∧
      ∀ e, (q.consume r).1 = .error e → (q.consume r).2 = q := by
  rw [← Grouping.groupOf_error_iff hlookup]
  rcases consume_cases h.regular r with ⟨k, hconsume, -, group, hgroup⟩ | ⟨e, hconsume, hgroup⟩
  · rw [hconsume, hgroup]
    exact ⟨⟨nofun, nofun⟩, nofun⟩
  · rw [hconsume, hgroup]
    exact ⟨⟨fun _ => ⟨e, rfl⟩, fun _ => ⟨e, rfl⟩⟩, fun _ _ => rfl⟩

/-- The total price, for which every record needs a price. -/
def strictTotal : GroupBy :=
  ⟨⟨[], [⟨.sum, some "price", some "total"⟩], .failFast, Record.lookup⟩, .new 16⟩

/-- The total price after one record and a count that is a text, as another GROUP BY sent it. -/
def spoiltTotal : GroupBy :=
  (GroupByStep.combine textCountBytes).apply
    ((GroupByStep.consume (.ofList [("price", .long 5)])).apply strictTotal)

theorem reachable_spoiltTotal : spoiltTotal.Reachable := by
  have hnew : GroupBy.new [] [⟨.sum, some "price", some "total"⟩]
      { nullPolicy := .failFast, groupEntries := 16 } = .ok strictTotal := rfl
  have hstart : Reachable strictTotal := .new Record.lookup hnew
  exact (hstart.step (.consume _)).step (.combine textCountBytes)

theorem consume_fails_iff_spoiltTotal :
    spoiltTotal.Reachable ∧ spoiltTotal.grouping.lookup.FailsByMissing ∧
      ((∃ e, (spoiltTotal.consume .empty).1 = .error e) ↔
        ∃ a ∈ spoiltTotal.grouping.accumulators,
          a.Refuses spoiltTotal.grouping.lookup spoiltTotal.grouping.policy .empty) ∧
      ∀ e, (spoiltTotal.consume .empty).1 = .error e →
        (spoiltTotal.consume .empty).2 = spoiltTotal :=
  ⟨reachable_spoiltTotal, Record.lookup_failsByMissing,
    consume_fails_iff reachable_spoiltTotal Record.lookup_failsByMissing .empty⟩

end GroupBy

end StreamQuery
