import StreamQuery.Aggregate.Summary
import StreamQuery.Proofs.Aggregate.Accumulators
import StreamQuery.Proofs.Outcomes
set_option autoImplicit false

/-!
# Summaries by their values

A summary that was started for some accumulators holds one running value for each of them, in
their order, and so it is known by these values.  What a record does to such a summary, and what
two of them combine to, is said here value by value.
-/

namespace StreamQuery

/-! ## One accumulator -/

namespace Measure

/-- A contribution is the running value when nothing has contributed before. -/
theorem reduce_initial_of_contribution {m : Measure} {v c : Value}
    (h : m.contribution v = .ok (some c)) : m.reduce m.initial c = .ok c := by
  have hnull : ∀ m : Measure, m.initial = .null → m.reduce m.initial c = .ok c := by
    intro m hm
    rw [hm]
    cases c <;> rfl
  cases m with
  | count =>
    cases h
    rfl
  | countField =>
    cases v <;> cases h <;> rfl
  | sum | min | max | avg => exact hnull _ rfl

end Measure

/-- The running value of an accumulator after a single record. -/
def Aggregate.alone (lookup : Lookup) (policy : NullPolicy) (r : Record) (a : Aggregate) :
    Outcome Value :=
  (Metric.contribution lookup policy r (.start a)).map fun c => c.getD a.measure.initial

section Alone

variable {lookup : Lookup} {policy : NullPolicy} {r : Record} {a : Aggregate}

/-- An accumulator that takes a record has its contribution, or none and its initial value. -/
theorem Aggregate.contribution_of_alone {v : Value} (h : a.alone lookup policy r = .ok v) :
    ∃ c, Metric.contribution lookup policy r (.start a) = .ok c ∧ c.getD a.measure.initial = v := by
  unfold alone at h
  cases hc : Metric.contribution lookup policy r (.start a) with
  | error e =>
    rw [hc] at h
    cases h
  | ok c =>
    rw [hc] at h
    exact ⟨c, rfl, Except.ok.inj h⟩

/-- An accumulator that takes a record reads a value from its field and has what that
contributes. -/
theorem Aggregate.fieldValue_of_alone {v : Value} (h : a.alone lookup policy r = .ok v) :
    ∃ w c, Metric.fieldValue lookup policy r a = .ok w ∧ a.measure.contribution w = .ok c ∧
      c.getD a.measure.initial = v := by
  obtain ⟨c, hc, hv⟩ := contribution_of_alone h
  cases hw : Metric.fieldValue lookup policy r a with
  | error e =>
    simp only [Metric.contribution, Metric.start, hw] at hc
    cases hc
  | ok w =>
    simp only [Metric.contribution, Metric.start, hw] at hc
    exact ⟨w, c, rfl, hc, hv⟩

/-- An accumulator that refuses a record does so when it forms its contribution. -/
theorem Aggregate.contribution_of_alone_error {e : QueryError}
    (h : a.alone lookup policy r = .error e) :
    Metric.contribution lookup policy r (.start a) = .error e := by
  unfold alone at h
  cases hc : Metric.contribution lookup policy r (.start a) with
  | error e' =>
    rw [hc] at h
    cases h
    rfl
  | ok c =>
    rw [hc] at h
    cases h

/-- A first contribution becomes the running value. -/
theorem Metric.absorb_start {c : Value}
    (h : Metric.contribution lookup policy r (.start a) = .ok (some c)) :
    (Metric.start a).absorb c = .ok ⟨a, c⟩ := by
  have hreduce : a.measure.reduce a.measure.initial c = .ok c := by
    cases hv : Metric.fieldValue lookup policy r a with
    | error e =>
      simp only [Metric.contribution, Metric.start, hv] at h
      cases h
    | ok v =>
      simp only [Metric.contribution, Metric.start, hv] at h
      exact Measure.reduce_initial_of_contribution h
  show (a.measure.reduce a.measure.initial c).map _ = _
  rw [hreduce]
  rfl

end Alone

namespace Summary

/-- The summary that holds a given value for each of its accumulators. -/
def valued (accumulators : List Aggregate) (value : Aggregate → Value) : Summary :=
  ⟨accumulators.map fun a => ⟨a, value a⟩⟩

variable {lookup : Lookup} {policy : NullPolicy} {r : Record} {accumulators : List Aggregate}
  {value other both : Aggregate → Value}

/-! ## A first record -/

/-- A first record gives each accumulator the value that it has after that record alone. -/
theorem exists_contributions (h : ∀ a ∈ accumulators, a.alone lookup policy r = .ok (value a)) :
    ∃ cs, (start accumulators).metrics.mapM (Metric.contribution lookup policy r) = .ok cs ∧
      absorbAll ((start accumulators).metrics.zip cs)
        = .done () (valued accumulators value).metrics := by
  induction accumulators with
  | nil => exact ⟨[], rfl, rfl⟩
  | cons a rest ih =>
    obtain ⟨cs, hcs, habsorb⟩ := ih fun a ha => h a (List.mem_cons_of_mem _ ha)
    obtain ⟨c, hc, hvalue⟩ := Aggregate.contribution_of_alone (h a List.mem_cons_self)
    have hmetrics : (start (a :: rest)).metrics = .start a :: (start rest).metrics := rfl
    refine ⟨c :: cs, ?_, ?_⟩
    · rw [hmetrics, List.mapM_cons, hc, hcs]
      rfl
    · rw [hmetrics, List.zip_cons_cons]
      cases c with
      | none =>
        have hstart : Metric.start a = ⟨a, value a⟩ := congrArg (Metric.mk a) hvalue
        rw [absorbAll, habsorb, hstart]
        rfl
      | some c =>
        have hfold : (Metric.start a).absorb c = .ok ⟨a, value a⟩ := by
          rw [Metric.absorb_start hc, ← hvalue]
          rfl
        rw [absorbAll, hfold, habsorb]
        rfl

/-- The summary of a single record that no accumulator refuses. -/
theorem consume_start_of_ok (h : ∀ a ∈ accumulators, a.alone lookup policy r = .ok (value a)) :
    (start accumulators).consume lookup policy r = .done () (valued accumulators value) := by
  obtain ⟨cs, hcs, habsorb⟩ := exists_contributions h
  simp only [consume, hcs, habsorb]
  rfl

/-- A record that an accumulator refuses is refused. -/
theorem consume_start_of_error {a : Aggregate} (ha : a ∈ accumulators) {e : QueryError}
    (h : a.alone lookup policy r = .error e) :
    ∃ e', (start accumulators).consume lookup policy r = .fail e' (start accumulators) := by
  have hmem : Metric.start a ∈ (start accumulators).metrics := List.mem_map_of_mem ha
  unfold consume
  cases hcs : (start accumulators).metrics.mapM (Metric.contribution lookup policy r) with
  | error e' => exact ⟨e', rfl⟩
  | ok cs =>
    obtain ⟨c, -, hc⟩ := exists_mem_of_forall₂ (mapM_eq_ok_iff.1 hcs) hmem
    cases hc.symm.trans (Aggregate.contribution_of_alone_error h)

/-! ## Combining -/

/-- A metric passes by those of other accumulators. -/
theorem absorbMetric_append {incoming : Metric} {front : List Metric}
    (h : ∀ m ∈ front, m.aggregate.sameAs incoming.aggregate = false) (rest : List Metric) :
    absorbMetric incoming (front ++ rest) = (absorbMetric incoming rest).map (front ++ ·) := by
  induction front with
  | nil =>
    rw [List.nil_append]
    cases absorbMetric incoming rest <;> rfl
  | cons m front ih =>
    have hm : m.aggregate.sameAs incoming.aggregate = false := h m List.mem_cons_self
    rw [List.cons_append, absorbMetric, hm, ih fun m hm => h m (List.mem_cons_of_mem _ hm)]
    cases absorbMetric incoming rest <;> rfl

/-- The metrics of the same accumulators meet one by one: those in front are reduced already. -/
theorem absorbMetrics_valued {front rest : List Aggregate}
    (hdistinct : Aggregate.Distinct (front ++ rest))
    (h : ∀ a ∈ rest, a.measure.reduce (value a) (other a) = .ok (both a)) :
    absorbMetrics ((valued front both).metrics ++ (valued rest value).metrics)
        (valued rest other).metrics
      = .done () (valued (front ++ rest) both).metrics := by
  induction rest generalizing front with
  | nil =>
    rw [List.append_nil]
    show Transition.done () ((valued front both).metrics ++ []) = _
    rw [List.append_nil]
  | cons a rest ih =>
    have hfront : ∀ m ∈ (valued front both).metrics, m.aggregate.sameAs a = false := by
      intro m hm
      obtain ⟨b, hb, rfl⟩ := List.mem_map.1 hm
      exact (List.pairwise_append.1 hdistinct).2.2 b hb a List.mem_cons_self
    have habsorb : absorbMetric ⟨a, other a⟩ (⟨a, value a⟩ :: (valued rest value).metrics)
        = .ok (⟨a, both a⟩ :: (valued rest value).metrics) := by
      rw [absorbMetric, Aggregate.sameAs_refl, if_pos rfl, Metric.absorb, h a List.mem_cons_self]
      rfl
    have hstep : absorbMetric ⟨a, other a⟩
        ((valued front both).metrics ++ ⟨a, value a⟩ :: (valued rest value).metrics)
        = .ok ((valued (front ++ [a]) both).metrics ++ (valued rest value).metrics) := by
      rw [absorbMetric_append hfront, habsorb]
      simp only [Except.map, valued, List.map_append, List.map_cons, List.map_nil,
        List.append_assoc, List.cons_append, List.nil_append]
    have hsplit : front ++ a :: rest = (front ++ [a]) ++ rest := by
      rw [List.append_assoc]
      rfl
    have hcons (f : Aggregate → Value) :
        (valued (a :: rest) f).metrics = ⟨a, f a⟩ :: (valued rest f).metrics := rfl
    rw [hcons, hcons, absorbMetrics, hstep, hsplit]
    exact ih (hsplit ▸ hdistinct) fun b hb => h b (List.mem_cons_of_mem _ hb)

/-- Summaries of the same accumulators combine value by value. -/
theorem combine_valued (hdistinct : Aggregate.Distinct accumulators)
    (h : ∀ a ∈ accumulators, a.measure.reduce (value a) (other a) = .ok (both a)) :
    (valued accumulators value).combine (valued accumulators other)
      = .done () (valued accumulators both) := by
  have hdistinct' : Aggregate.Distinct ([] ++ accumulators) := hdistinct
  have habsorb := absorbMetrics_valued hdistinct' h
  have hnil : (valued [] both).metrics = [] := rfl
  rw [hnil, List.nil_append, List.nil_append] at habsorb
  rw [combine, habsorb]
  rfl

end Summary

end StreamQuery
