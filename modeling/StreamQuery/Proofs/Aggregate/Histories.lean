import StreamQuery.Proofs.Aggregate.Refusals
import StreamQuery.Proofs.Outcomes
set_option autoImplicit false

/-!
# Summaries that are never stuck

A record or another summary is folded into a summary metric by metric, and a fold that failed half
way would leave some metrics changed and others not.  It never does: whatever summaries come from
hold NULL or a number for each accumulator (`Summary.History.tallies`), and such values reduce.  So
a record is refused only for what it contributes, before any metric changes, and a summary is never
refused (`Summary.History.never_stuck`).
-/

namespace StreamQuery

/-! ## One metric -/

namespace Metric

/-- Folds in what a record contributes, if anything. -/
def absorbAny (m : Metric) : Option Value → Outcome Metric
  | some c => m.absorb c
  | none => .ok m

/-- Folds a record in. -/
def take (lookup : Lookup) (policy : NullPolicy) (r : Record) (m : Metric) : Outcome Metric :=
  contribution lookup policy r m >>= m.absorbAny

variable {lookup : Lookup} {policy : NullPolicy} {r : Record} {m : Metric} {v : Value}

/-- A running value takes another one in and stays a running value. -/
theorem absorb_of_isTally (hm : m.value.IsTally) (hv : v.IsTally) :
    ∃ m', m.absorb v = .ok m' ∧ m'.value.IsTally := by
  obtain ⟨u, hu, htally⟩ := m.aggregate.measure.reduce_of_isTally hm hv
  exact ⟨{ m with value := u }, by rw [absorb, hu]; rfl, htally⟩

/-- A record is taken by a metric as soon as its contribution can be formed. -/
theorem take_of_isTally (hm : m.value.IsTally) {c : Option Value}
    (hc : contribution lookup policy r m = .ok c) :
    ∃ m', m.take lookup policy r = .ok m' ∧ m'.value.IsTally := by
  rw [take, hc]
  cases c with
  | none => exact ⟨m, rfl, hm⟩
  | some c =>
    obtain ⟨v, -, hv⟩ := bind_eq_ok_iff.1 hc
    exact absorb_of_isTally hm (.inr (Measure.isNumeric_contribution hv))

end Metric

namespace Summary

/-- Every metric holds NULL or a number. -/
def Tallies (s : Summary) : Prop := ∀ m ∈ s.metrics, m.value.IsTally

variable {lookup : Lookup} {policy : NullPolicy} {r : Record} {s s' other : Summary}
  {metrics metrics' : List Metric}

theorem tallies_start (accumulators : List Aggregate) : (start accumulators).Tallies := by
  intro m hm
  obtain ⟨a, -, rfl⟩ := List.mem_map.1 hm
  exact a.measure.isTally_initial

/-! ## A record -/

theorem absorbAll_cons_eq_done_iff {m : Metric} {c : Option Value}
    {rest : List (Metric × Option Value)} :
    absorbAll ((m, c) :: rest) = .done () metrics
      ↔ ∃ m' rest', m.absorbAny c = .ok m' ∧ absorbAll rest = .done () rest' ∧
        metrics = m' :: rest' := by
  cases c with
  | none =>
    rw [absorbAll, Transition.within_eq_done_iff]
    simp [Metric.absorbAny, eq_comm]
  | some v =>
    rw [absorbAll, Metric.absorbAny]
    cases m.absorb v with
    | error e => simp [Transition.fail, Transition.done]
    | ok m' =>
      simp only [Transition.within_eq_done_iff]
      simp [eq_comm]

/-- Contributions are folded in metric by metric. -/
theorem absorbAll_zip_eq_done_iff {contributions : List (Option Value)}
    (h : List.Forall₂ (fun m c => Metric.contribution lookup policy r m = .ok c) metrics
      contributions) :
    absorbAll (metrics.zip contributions) = .done () metrics'
      ↔ List.Forall₂ (fun m m' => m.take lookup policy r = .ok m') metrics metrics' := by
  induction h generalizing metrics' with
  | nil =>
    rw [List.forall₂_nil_left_iff]
    exact ⟨fun h => (Prod.mk.inj h).2.symm, fun h => by rw [h]; rfl⟩
  | @cons m c metrics contributions hc _ ih =>
    have htake : m.take lookup policy r = m.absorbAny c := by
      rw [Metric.take, hc]
      rfl
    simp only [List.zip_cons_cons, absorbAll_cons_eq_done_iff, List.forall₂_cons_left_iff, htake,
      ih]

/-- A summary takes a record exactly if each of its metrics does. -/
theorem consume_eq_done_iff :
    s.consume lookup policy r = .done () s'
      ↔ List.Forall₂ (fun m m' => m.take lookup policy r = .ok m') s.metrics s'.metrics := by
  unfold consume
  cases hcs : s.metrics.mapM (Metric.contribution lookup policy r) with
  | error e =>
    obtain ⟨m, hm, he⟩ := exists_mem_of_mapM_eq_error hcs
    have hnone : ¬List.Forall₂ (fun m m' => m.take lookup policy r = .ok m') s.metrics
        s'.metrics := by
      intro h
      obtain ⟨m', hm'⟩ := exists_forall₂_iff.1 ⟨_, h⟩ m hm
      rw [Metric.take, he] at hm'
      cases hm'
    simp [Transition.fail, Transition.done, hnone]
  | ok contributions =>
    rw [← absorbAll_zip_eq_done_iff (mapM_eq_ok_iff.1 hcs), Transition.within_eq_done_iff]
    constructor
    · rintro ⟨metrics, h, rfl⟩
      exact h
    · exact fun h => ⟨s'.metrics, h, rfl⟩

/-- Either some contribution cannot be formed, and the summary is left as it was, or the record is
taken. -/
theorem Tallies.consume_cases (h : s.Tallies) (lookup : Lookup) (policy : NullPolicy) (r : Record) :
    (∃ m ∈ s.metrics, ∃ e, Metric.contribution lookup policy r m = .error e ∧
        s.consume lookup policy r = .fail e s) ∨
      ((∀ m ∈ s.metrics, ∃ c, Metric.contribution lookup policy r m = .ok c) ∧
        ∃ s', s.consume lookup policy r = .done () s' ∧ s'.Tallies) := by
  cases hcs : s.metrics.mapM (Metric.contribution lookup policy r) with
  | error e =>
    obtain ⟨m, hm, he⟩ := exists_mem_of_mapM_eq_error hcs
    refine .inl ⟨m, hm, e, he, ?_⟩
    rw [consume, hcs]
  | ok contributions =>
    have hformed := exists_forall₂_iff.1 ⟨_, mapM_eq_ok_iff.1 hcs⟩
    have htakes : ∀ m ∈ s.metrics, ∃ m', m.take lookup policy r = .ok m' ∧ m'.value.IsTally := by
      intro m hm
      obtain ⟨c, hc⟩ := hformed m hm
      exact Metric.take_of_isTally (h m hm) hc
    obtain ⟨metrics', hmetrics⟩ := exists_forall₂_iff.2 htakes
    refine .inr ⟨hformed, ⟨metrics'⟩, consume_eq_done_iff.2 (hmetrics.imp fun _ _ h => h.1), ?_⟩
    intro m' hm'
    obtain ⟨m, -, -, htally⟩ := exists_mem_of_forall₂ hmetrics.flip hm'
    exact htally

/-! ## Another summary -/

/-- A metric goes to that of its accumulator or behind all others. -/
theorem absorbMetric_of_isTally {incoming : Metric} (h : ∀ m ∈ metrics, m.value.IsTally)
    (hincoming : incoming.value.IsTally) :
    ∃ metrics', absorbMetric incoming metrics = .ok metrics' ∧
      ∀ m ∈ metrics', m.value.IsTally := by
  induction metrics with
  | nil => exact ⟨[incoming], rfl, List.forall_mem_singleton.2 hincoming⟩
  | cons m rest ih =>
    obtain ⟨hm, hrest⟩ := List.forall_mem_cons.1 h
    rw [absorbMetric]
    split
    · obtain ⟨m', hm', htally⟩ := Metric.absorb_of_isTally hm hincoming
      rw [hm']
      exact ⟨m' :: rest, rfl, List.forall_mem_cons.2 ⟨htally, hrest⟩⟩
    · obtain ⟨rest', hrest', htally⟩ := ih hrest
      rw [hrest']
      exact ⟨m :: rest', rfl, List.forall_mem_cons.2 ⟨hm, htally⟩⟩

theorem absorbMetrics_of_isTally {incoming : List Metric} (h : ∀ m ∈ metrics, m.value.IsTally)
    (hincoming : ∀ m ∈ incoming, m.value.IsTally) :
    ∃ metrics', absorbMetrics metrics incoming = .done () metrics' ∧
      ∀ m ∈ metrics', m.value.IsTally := by
  induction incoming generalizing metrics with
  | nil => exact ⟨metrics, rfl, h⟩
  | cons m rest ih =>
    obtain ⟨hm, hrest⟩ := List.forall_mem_cons.1 hincoming
    obtain ⟨metrics', hmetrics', htally⟩ := absorbMetric_of_isTally h hm
    rw [absorbMetrics, hmetrics']
    exact ih htally hrest

/-- Running values of any accumulators combine. -/
theorem Tallies.combine (h : s.Tallies) (hother : other.Tallies) :
    ∃ both, s.combine other = .done () both ∧ both.Tallies := by
  obtain ⟨metrics, hmetrics, htally⟩ := absorbMetrics_of_isTally h hother
  refine ⟨⟨metrics⟩, ?_, htally⟩
  rw [Summary.combine, hmetrics]
  rfl

/-! ## Whatever happens to a summary -/

/-- What may happen to a summary: records and other summaries come in, whether or not they are
taken, and the others come about in the same way, for the same or other accumulators. -/
inductive History where
  | start (accumulators : List Aggregate)
  | consume (before : History) (lookup : Lookup) (policy : NullPolicy) (r : Record)
  | combine (before other : History)

namespace History

/-- The summary that is left. -/
def summary : History → Summary
  | start accumulators => Summary.start accumulators
  | consume before lookup policy r => (before.summary.consume lookup policy r).2
  | combine before other => (before.summary.combine other.summary).2

/-- Every metric holds NULL or a number at any time. -/
theorem tallies (history : History) : history.summary.Tallies := by
  induction history with
  | start accumulators => exact tallies_start accumulators
  | consume before lookup policy r ih =>
    rw [summary]
    rcases ih.consume_cases lookup policy r with ⟨_, -, e, -, hfail⟩ | ⟨-, s, hdone, htally⟩
    · rw [hfail]
      exact ih
    · rw [hdone]
      exact htally
  | combine before other ih ihother =>
    obtain ⟨both, hboth, htally⟩ := ih.combine ihother
    rw [summary, hboth]
    exact htally

/-- Summaries combine at any time.  A record is refused exactly if one of its contributions cannot
be formed, and then the summary is left as it was. -/
theorem never_stuck (history : History) :
    (∀ other : History, ∃ both, history.summary.combine other.summary = .done () both) ∧
    ∀ lookup policy r,
      (∃ m ∈ history.summary.metrics, ∃ e, Metric.contribution lookup policy r m = .error e ∧
        history.summary.consume lookup policy r = .fail e history.summary) ∨
      ((∀ m ∈ history.summary.metrics, ∃ c, Metric.contribution lookup policy r m = .ok c) ∧
        ∃ s, history.summary.consume lookup policy r = .done () s) := by
  constructor
  · intro other
    obtain ⟨both, hboth, -⟩ := history.tallies.combine other.tallies
    exact ⟨both, hboth⟩
  · intro lookup policy r
    rcases history.tallies.consume_cases lookup policy r with hrefused | ⟨hformed, s, hdone, -⟩
    · exact .inl hrefused
    · exact .inr ⟨hformed, s, hdone⟩

end History

end Summary

end StreamQuery
