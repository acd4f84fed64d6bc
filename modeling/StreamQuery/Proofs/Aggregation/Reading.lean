import StreamQuery.Proofs.Aggregate.Regrouping
import StreamQuery.Proofs.Aggregation.Acceptance
import StreamQuery.Proofs.Sketch.Gathers
set_option autoImplicit false

/-!
# Reading a GROUP BY between records

A read takes the groups collected so far out of the way, and what comes later is collected anew and
put to them by the next read.  So reading regroups the running values, and it changes no result as
long as these can be regrouped.  Where they cannot, as with sums of floating-point numbers, the
result depends on when it was read before.
-/

namespace StreamQuery

namespace Grouping

variable {g : Grouping} {r : Record} {stream : List Record}

/-! ## Groups -/

/-- A record that is taken. -/
def Takes (g : Grouping) (r : Record) : Prop := ∃ group, g.groupOf r = .ok group

instance (g : Grouping) (r : Record) : Decidable (g.Takes r) :=
  match h : g.groupOf r with
  | .ok group => .isTrue ⟨group, h⟩
  | .error _ => .isFalse fun ⟨_, hgroup⟩ => nomatch h.symm.trans hgroup

/-- The running value of an accumulator after a record that is taken. -/
def valueOf (g : Grouping) (r : Record) (a : Aggregate) : Value :=
  match a.alone g.lookup g.policy r with
  | .ok v => v
  | .error _ => .null

/-- Records are offered under the hashes of their keys, and their groups hold the running values in
the order of their coming. -/
def ordered (g : Grouping) : Offering Record Group where
  hash r := Value.hashTuple (g.keyOf r)
  value r rs := ⟨g.keyOf r, .valued g.accumulators fun a =>
    (rs.map fun r => g.valueOf r a).foldl a.measure.reduced (g.valueOf r a)⟩

theorem alone_of_takes (h : g.Takes r) {a : Aggregate} (ha : a ∈ g.accumulators) :
    a.alone g.lookup g.policy r = .ok (g.valueOf r a) := by
  obtain ⟨group, hgroup⟩ := h
  unfold valueOf
  cases hv : a.alone g.lookup g.policy r with
  | ok v => rfl
  | error e =>
    obtain ⟨e', hconsume⟩ := Summary.consume_start_of_error ha hv
    rw [groupOf, hconsume] at hgroup
    cases hgroup

/-- The group of a single record. -/
theorem groupOf_of_takes (h : g.Takes r) : g.groupOf r = .ok (g.ordered.value r []) := by
  have hconsume := Summary.consume_start_of_ok fun a ha => alone_of_takes h (a := a) ha
  rw [groupOf, hconsume]
  rfl

/-- The running values that accumulators take from some records can be regrouped. -/
def Regroupable (g : Grouping) (rs : List Record) : Prop :=
  ∀ a ∈ g.accumulators, a.Regroupable g.lookup rs

/-- Groups of records whose running values can be regrouped combine in the order of the records. -/
theorem combines_ordered (h : g.Regroupable stream) (htaken : ∀ r ∈ stream, g.Takes r) :
    g.ordered.Combines (· ∈ stream) where
  combine_value {x y xs ys} hall := by
    have hreduce : ∀ a ∈ g.accumulators,
        a.measure.reduce ((xs.map fun r => g.valueOf r a).foldl a.measure.reduced (g.valueOf x a))
          ((ys.map fun r => g.valueOf r a).foldl a.measure.reduced (g.valueOf y a))
        = .ok (((xs ++ y :: ys).map fun r => g.valueOf r a).foldl a.measure.reduced
            (g.valueOf x a)) := by
      intro a ha
      obtain ⟨values, hregroups, hvalues⟩ := (h a ha).regroups g.policy
      rw [List.map_append, List.map_cons]
      apply hregroups.foldl_append_cons
      intro v hv
      rw [← List.map_cons (f := fun r => g.valueOf r a),
        ← List.map_cons (f := fun r => g.valueOf r a), ← List.map_append] at hv
      obtain ⟨r, hr, rfl⟩ := List.mem_map.1 hv
      have hmem := (hall r hr).1
      exact hvalues r hmem _ (alone_of_takes (htaken r hmem) ha)
    have hcombine := Summary.combine_valued (Aggregate.distinct_accumulators g.aggregates) hreduce
    show ((Summary.valued g.accumulators _).combine (.valued g.accumulators _)).within _ = _
    rw [accumulators, hcombine]
    rfl

end Grouping

/-! ## Steps -/

namespace GroupByStep

/-- Whether a step takes nothing from elsewhere. -/
def isLocal : GroupByStep → Bool
  | combine _ => false
  | consume _ | data | result | reset => true

/-- Whether a step only reads. -/
def isRead : GroupByStep → Bool
  | data | result => true
  | consume _ | combine _ | reset => false

/-- The records that are held after a step. -/
def held (g : Grouping) (rs : List Record) : GroupByStep → List Record
  | consume r => if g.Takes r then rs ++ [r] else rs
  | reset => []
  | combine _ | data | result => rs

/-- The records that steps offer and that are taken. -/
def taken (g : Grouping) (steps : List GroupByStep) : List Record := steps.flatMap (held g [])

theorem held_consume_of_takes {g : Grouping} {r : Record} (h : g.Takes r) (rs : List Record) :
    (consume r).held g rs = rs ++ [r] :=
  if_pos h

theorem held_consume_of_not_takes {g : Grouping} {r : Record} (h : ¬g.Takes r)
    (rs : List Record) : (consume r).held g rs = rs :=
  if_neg h

theorem held_eq_of_isRead {g : Grouping} {rs : List Record} {s : GroupByStep}
    (h : s.isRead = true) : s.held g rs = rs := by
  cases s <;> first | rfl | cases h

/-- Only records that are taken come to be held. -/
theorem mem_of_mem_held {g : Grouping} {rs : List Record} {s : GroupByStep} {r : Record}
    (h : r ∈ s.held g rs) : r ∈ rs ∨ r ∈ s.held g [] := by
  cases s with
  | consume r' =>
    by_cases htakes : g.Takes r'
    · rw [held_consume_of_takes htakes] at h ⊢
      exact List.mem_append.1 h
    · rw [held_consume_of_not_takes htakes] at h
      exact .inl h
  | reset => exact .inr h
  | combine _ | data | result => exact .inl h

theorem takes_of_mem_taken {g : Grouping} {steps : List GroupByStep} {r : Record}
    (h : r ∈ taken g steps) : g.Takes r := by
  obtain ⟨s, -, hs⟩ := List.mem_flatMap.1 h
  cases s with
  | consume r' =>
    by_cases htakes : g.Takes r'
    · rw [held_consume_of_takes htakes, List.nil_append] at hs
      rw [List.mem_singleton.1 hs]
      exact htakes
    · rw [held_consume_of_not_takes htakes] at hs
      cases hs
  | _ => cases hs

end GroupByStep

namespace GroupBy

variable {g : Grouping} {capacity : Nat} {rs stream : List Record} {q q' : GroupBy}
  {keys : List (String × Expr)} {aggregates : List Aggregate} {settings : Settings}

/-- The sample of all that a GROUP BY took since it was empty is spread over its sketch, in the
order of the records. -/
structure Collects (g : Grouping) (capacity : Nat) (rs : List Record) (q : GroupBy) : Prop where
  grouping_eq : q.grouping = g
  gathers : ∃ d, Gathers g.ordered capacity d q.sketch.sketch ∧ d.items = rs ∧
    d.bound = HashSample.noBound

theorem collects_new (h : GroupBy.new keys aggregates settings = .ok q) (lookup : Lookup) :
    Collects ⟨keys, aggregates, settings.nullPolicy, lookup⟩ settings.groupEntries []
      (q.withLookup lookup) := by
  rw [eq_of_new h]
  exact ⟨rfl, .none, gathers_new _, rfl, min_noBound _⟩

variable (combines : g.ordered.Combines (· ∈ stream))
include combines

/-- A read brings all that was taken together, and leaves it collected. -/
theorem Collects.read (h : Collects g capacity rs q) (hmem : ∀ r ∈ rs, r ∈ stream) :
    ∃ t k, Sketch.result q.sketch.sketch = .done t k ∧
      SampleOf g.ordered capacity rs HashSample.noBound t ∧
      Collects g capacity rs (q.withSketch k) := by
  obtain ⟨d, hd, rfl, hbound⟩ := h.gathers
  obtain ⟨t, k, hread, ht, hk⟩ := hd.read combines hmem
  rw [hbound] at ht hk
  exact ⟨t, k, hread, ht, h.grouping_eq, _, hk, Spread.items_settled _ _, min_noBound _⟩

theorem Collects.result (h : Collects g capacity rs q) (hmem : ∀ r ∈ rs, r ∈ stream) :
    ∃ t k, q.result = .done (q.batchOf t) (q.withSketch k) ∧
      SampleOf g.ordered capacity rs HashSample.noBound t ∧
      Collects g capacity rs (q.withSketch k) := by
  obtain ⟨t, k, hread, ht, hk⟩ := h.read combines hmem
  obtain ⟨t', k', hread', ht', hk'⟩ := hk.read combines hmem
  obtain rfl := ht.unique ht'
  exact ⟨t, k', result_of_reads hread hread', ht, hk'⟩

/-- A record that is taken is collected behind the others, and one that is refused is not. -/
theorem Collects.consume (h : Collects g capacity rs q) (r : Record)
    (hmem : ∀ r' ∈ GroupByStep.held g rs (.consume r), r' ∈ stream) :
    Collects g capacity (GroupByStep.held g rs (.consume r)) (q.consume r).2 := by
  by_cases htakes : g.Takes r
  · rw [GroupByStep.held_consume_of_takes htakes] at hmem ⊢
    obtain ⟨d, hd, rfl, hbound⟩ := h.gathers
    have hmem' : ∀ y ∈ d.updates ++ [r], y ∈ stream := by
      intro y hy
      apply hmem y
      rw [List.mem_append] at hy ⊢
      exact hy.imp_left (List.mem_append_right _)
    obtain ⟨kept, k, hadd, hk⟩ := hd.add combines hmem'
    have hgroup : q.grouping.groupOf r = .ok (g.ordered.value r []) := by
      rw [h.grouping_eq]
      exact Grouping.groupOf_of_takes htakes
    have hconsume : (q.consume r).2 = q.withSketch k := by
      rw [consume_of_group hgroup]
      show q.withSketch (Sketch.add q.sketch.sketch (g.ordered.hash r) _).2 = _
      rw [hadd]
      rfl
    rw [hconsume]
    refine ⟨h.grouping_eq, _, hk, ?_, hbound⟩
    simp only [Spread.items, List.append_assoc]
  · rw [GroupByStep.held_consume_of_not_takes htakes]
    cases hgroup : q.grouping.groupOf r with
    | ok group => exact absurd ⟨group, h.grouping_eq ▸ hgroup⟩ htakes
    | error e =>
      rw [consume_of_error hgroup]
      exact h

theorem Collects.apply (h : Collects g capacity rs q) {s : GroupByStep} (hlocal : s.isLocal = true)
    (hmem : ∀ r ∈ rs, r ∈ stream) (hmem' : ∀ r ∈ s.held g rs, r ∈ stream) :
    Collects g capacity (s.held g rs) (s.apply q) := by
  cases s with
  | consume r => exact h.consume combines r hmem'
  | combine bs => cases hlocal
  | data =>
    obtain ⟨t, k, hread, -, hk⟩ := h.read combines hmem
    have hdata : q.data.2 = q.withSketch k := by
      show q.withSketch (Sketch.result q.sketch.sketch).2 = _
      rw [hread]
      rfl
    simp only [GroupByStep.apply, hdata]
    exact hk
  | result =>
    obtain ⟨t, k, hresult, -, hk⟩ := h.result combines hmem
    simp only [GroupByStep.apply, hresult]
    exact hk
  | reset =>
    obtain ⟨d, hd, -, -⟩ := h.gathers
    exact ⟨h.grouping_eq, .none, hd.reset, rfl, min_noBound _⟩

theorem Collects.run (h : Collects g capacity rs q) {steps : List GroupByStep}
    (hlocal : ∀ s ∈ steps, s.isLocal = true) (hmem : ∀ r ∈ rs, r ∈ stream)
    (htaken : ∀ r ∈ GroupByStep.taken g steps, r ∈ stream) :
    Collects g capacity (steps.foldl (GroupByStep.held g) rs) (steps.foldl GroupByStep.apply q) ∧
      ∀ r ∈ steps.foldl (GroupByStep.held g) rs, r ∈ stream := by
  induction steps generalizing q rs with
  | nil => exact ⟨h, hmem⟩
  | cons s rest ih =>
    have hmem' : ∀ r ∈ s.held g rs, r ∈ stream := by
      intro r hr
      rcases GroupByStep.mem_of_mem_held hr with hr | hr
      · exact hmem r hr
      · exact htaken r (List.mem_flatMap.2 ⟨s, List.mem_cons_self, hr⟩)
    have hstep := h.apply combines (hlocal s List.mem_cons_self) hmem hmem'
    refine ih hstep (fun s hs => hlocal s (List.mem_cons_of_mem _ hs)) hmem' ?_
    intro r hr
    obtain ⟨s', hs', hr'⟩ := List.mem_flatMap.1 hr
    exact htaken r (List.mem_flatMap.2 ⟨s', List.mem_cons_of_mem _ hs', hr'⟩)

omit combines

/-- Reads hold nothing and take nothing away. -/
theorem held_filter (g : Grouping) (steps : List GroupByStep) (rs : List Record) :
    (steps.filter fun s => !s.isRead).foldl (GroupByStep.held g) rs
      = steps.foldl (GroupByStep.held g) rs := by
  induction steps generalizing rs with
  | nil => rfl
  | cons s rest ih =>
    cases hread : s.isRead with
    | true =>
      rw [List.filter_cons_of_neg (by simp [hread]), List.foldl_cons,
        GroupByStep.held_eq_of_isRead hread]
      exact ih rs
    | false =>
      rw [List.filter_cons_of_pos (by simp [hread]), List.foldl_cons, List.foldl_cons]
      exact ih _

/-! ## Results -/

/-- As long as the running values can be regrouped, a GROUP BY that is read between its records has
the result, and the bytes, of one that is not. -/
theorem reading_changes_nothing {lookup : Lookup} {steps : List GroupByStep}
    (hnew : GroupBy.new keys aggregates settings = .ok q') (hq : q'.withLookup lookup = q)
    (hlocal : ∀ s ∈ steps, s.isLocal = true)
    (hregroup : q.grouping.Regroupable (GroupByStep.taken q.grouping steps)) :
    ∃ b, (steps.foldl GroupByStep.apply q).result.1 = .ok b ∧
      ((steps.filter fun s => !s.isRead).foldl GroupByStep.apply q).result.1 = .ok b ∧
      (steps.foldl GroupByStep.apply q).data.1
        = ((steps.filter fun s => !s.isRead).foldl GroupByStep.apply q).data.1 := by
  subst hq
  have hstart := collects_new hnew lookup
  have hg := hstart.grouping_eq
  have combines := Grouping.combines_ordered hregroup fun r hr => GroupByStep.takes_of_mem_taken hr
  rw [hg] at combines
  have hunread : ∀ s ∈ steps.filter fun s => !s.isRead, s ∈ steps :=
    fun s hs => (List.mem_filter.1 hs).1
  obtain ⟨hread, hmem⟩ := hstart.run combines hlocal nofun fun r hr => hr
  obtain ⟨hunreads, -⟩ := hstart.run combines (fun s hs => hlocal s (hunread s hs)) nofun
    fun r hr => by
      obtain ⟨s, hs, hr⟩ := List.mem_flatMap.1 hr
      exact List.mem_flatMap.2 ⟨s, hunread s hs, hr⟩
  rw [held_filter] at hunreads
  obtain ⟨t, k, hresult, ht, -⟩ := hread.result combines hmem
  obtain ⟨t', k', hresult', ht', -⟩ := hunreads.result combines hmem
  obtain ⟨s, k, hsketch, hs, -⟩ := hread.read combines hmem
  obtain ⟨s', k', hsketch', hs', -⟩ := hunreads.read combines hmem
  obtain rfl := ht.unique ht'
  obtain rfl := hs.unique hs'
  refine ⟨_, by rw [hresult]; rfl, ?_, ?_⟩
  · rw [hresult', batchOf, batchOf, hread.grouping_eq, hunreads.grouping_eq]
    rfl
  · show (Sketch.result _).1.bind HashSample.toBytes = (Sketch.result _).1.bind HashSample.toBytes
    rw [hsketch, hsketch']
    rfl

/-! ## Totals -/

/-- The total of a field. -/
def runningTotal : GroupBy :=
  ⟨⟨[], [⟨.sum, some "v", some "total"⟩], .skip, Record.lookup⟩, .new 16⟩

theorem new_runningTotal : GroupBy.new [] [⟨.sum, some "v", some "total"⟩] { groupEntries := 16 }
    = .ok runningTotal := rfl

/-- A record with an amount. -/
def amount (v : Value) : Record := .ofList [("v", v)]

/-- Three amounts, read after the first one. -/
def readAfterFirst (u v w : Value) : List GroupByStep :=
  [.consume (amount u), .result, .consume (amount v), .consume (amount w)]

theorem lookup_amount (v : Value) : Record.lookup "v" (amount v) = .ok v := by
  have hget : (amount v).get? "v" = some v := Record.get?_set_self _ _ _
  rw [Record.lookup, hget]

theorem isLocal_readAfterFirst (u v w : Value) :
    ∀ s ∈ readAfterFirst u v w, s.isLocal = true := by
  intro s hs
  simp only [readAfterFirst, List.mem_cons, List.not_mem_nil, or_false] at hs
  rcases hs with rfl | rfl | rfl | rfl <;> rfl

/-- What is taken of three amounts are the amounts. -/
theorem exists_amount_of_mem_taken {g : Grouping} {u v w : Value} {r : Record}
    (h : r ∈ GroupByStep.taken g (readAfterFirst u v w)) :
    ∃ x ∈ [u, v, w], r = amount x := by
  have hheld {r' : Record} (hr : r ∈ (GroupByStep.consume r').held g []) : r = r' := by
    by_cases htakes : g.Takes r'
    · rw [GroupByStep.held_consume_of_takes htakes, List.nil_append] at hr
      exact List.mem_singleton.1 hr
    · rw [GroupByStep.held_consume_of_not_takes htakes] at hr
      cases hr
  obtain ⟨s, hs, hr⟩ := List.mem_flatMap.1 h
  simp only [readAfterFirst, List.mem_cons, List.not_mem_nil, or_false] at hs
  rcases hs with rfl | rfl | rfl | rfl
  · exact ⟨u, by simp, hheld hr⟩
  · cases hr
  · exact ⟨v, by simp, hheld hr⟩
  · exact ⟨w, by simp, hheld hr⟩

/-- Amounts that are whole numbers or NULL can be regrouped. -/
theorem regroupable_amounts {u v w : Value}
    (h : ∀ x ∈ [u, v, w], x.isNumeric = true → x.kind.isIntegral = true) :
    runningTotal.grouping.Regroupable
      (GroupByStep.taken runningTotal.grouping (readAfterFirst u v w)) := by
  intro a ha
  have hsum : a = ⟨.sum, some "v", some "total"⟩ := List.mem_singleton.1 ha
  subst hsum
  intro r hr x hx
  obtain ⟨hnumeric, field, hfield, hlookup⟩ := hx
  cases hfield
  obtain ⟨y, hy, rfl⟩ := exists_amount_of_mem_taken hr
  have heq : y = x := Except.ok.inj ((lookup_amount y).symm.trans hlookup)
  exact heq ▸ h y hy (heq ▸ hnumeric)

theorem reading_changes_nothing_runningTotal :
    (GroupBy.new [] [⟨.sum, some "v", some "total"⟩] { groupEntries := 16 } = .ok runningTotal ∧
      runningTotal.withLookup Record.lookup = runningTotal ∧
      (∀ s ∈ readAfterFirst (.long 5) (.integer 3) .null, s.isLocal = true) ∧
      runningTotal.grouping.Regroupable
        (GroupByStep.taken runningTotal.grouping (readAfterFirst (.long 5) (.integer 3) .null))) ∧
    ∃ b, ((readAfterFirst (.long 5) (.integer 3) .null).foldl GroupByStep.apply
          runningTotal).result.1 = .ok b ∧
      (((readAfterFirst (.long 5) (.integer 3) .null).filter fun s => !s.isRead).foldl
          GroupByStep.apply runningTotal).result.1 = .ok b ∧
      ((readAfterFirst (.long 5) (.integer 3) .null).foldl GroupByStep.apply runningTotal).data.1
        = (((readAfterFirst (.long 5) (.integer 3) .null).filter fun s => !s.isRead).foldl
            GroupByStep.apply runningTotal).data.1 := by
  have hintegral : ∀ x ∈ [Value.long 5, .integer 3, .null], x.isNumeric = true →
      x.kind.isIntegral = true := by
    intro x hx hnumeric
    simp only [List.mem_cons, List.not_mem_nil, or_false] at hx
    rcases hx with rfl | rfl | rfl
    · rfl
    · rfl
    · cases hnumeric
  have hregroup := regroupable_amounts hintegral
  exact ⟨⟨new_runningTotal, rfl, isLocal_readAfterFirst _ _ _, hregroup⟩,
    reading_changes_nothing new_runningTotal rfl (isLocal_readAfterFirst _ _ _) hregroup⟩

/-- A double precision number so large that one is less than its distance to the next number. -/
def large : Value := .double (Numeric.doubleOfWord 0x4341c37937e08000)

/-- One, in double precision. -/
def one : Value := .double (Numeric.doubleOfWord 0x3ff0000000000000)

/-- Two ones are lost when they are added to a large number one by one, and count when they are
added up first; a read after the large number makes them be added up first. -/
theorem reading_changes_total :
    GroupBy.new [] [⟨.sum, some "v", some "total"⟩] { groupEntries := 16 } = .ok runningTotal ∧
      (∀ s ∈ readAfterFirst large one one, s.isLocal = true) ∧
      ∃ b b', ((readAfterFirst large one one).foldl GroupByStep.apply runningTotal).result.1
          = .ok b ∧
        (((readAfterFirst large one one).filter fun s => !s.isRead).foldl
          GroupByStep.apply runningTotal).result.1 = .ok b' ∧
        b.records.map Record.text = ["\x7btotal: 10000000000000002\x7d"] ∧
        b'.records.map Record.text = ["\x7btotal: 10000000000000000\x7d"] := by
  refine ⟨new_runningTotal, isLocal_readAfterFirst _ _ _, ?_⟩
  have hread : ((readAfterFirst large one one).foldl GroupByStep.apply runningTotal).result.1.map
      (fun b => b.records.map Record.text) = .ok ["\x7btotal: 10000000000000002\x7d"] := by
    decide +kernel
  have hunread : (((readAfterFirst large one one).filter fun s => !s.isRead).foldl
      GroupByStep.apply runningTotal).result.1.map (fun b => b.records.map Record.text)
        = .ok ["\x7btotal: 10000000000000000\x7d"] := by
    decide +kernel
  obtain ⟨b, hb, htexts⟩ := Outcome.exists_of_map_eq_ok hread
  obtain ⟨b', hb', htexts'⟩ := Outcome.exists_of_map_eq_ok hunread
  exact ⟨b, b', hb, hb', htexts, htexts'⟩

end GroupBy

end StreamQuery
