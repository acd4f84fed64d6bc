import StreamQuery.Proofs.Aggregate.Valued
import Mathlib.Tactic.Choose
set_option autoImplicit false

/-!
# Records that an accumulator refuses

An accumulator refuses a record for the value of its field alone: a missing value under the strict
policy, or a value that is no number where numbers are computed with.  What it has taken stays
NULL or a number, and such running values never refuse each other.
-/

namespace StreamQuery

/-! ## Ways to resolve names -/

/-- A way to resolve names that fails only for a field that is absent or not of its declared
kind. -/
def Lookup.FailsByMissing (lookup : Lookup) : Prop :=
  ∀ name r e, lookup name r = .error e → e.isLookup = true

/-- A field that is NULL or cannot be resolved. -/
def Lookup.Misses (lookup : Lookup) (field : String) (r : Record) : Prop :=
  lookup field r = .ok .null ∨ ∃ e, lookup field r = .error e

theorem Record.lookup_failsByMissing : Lookup.FailsByMissing Record.lookup := by
  intro name r e h
  unfold Record.lookup at h
  split at h
  · cases h
  · split at h
    · rename_i head next rest _
      cases hfollow : r.follow (String.ofList head) ((next :: rest).map String.ofList) with
      | error fault =>
        rw [hfollow] at h
        cases h
        rfl
      | ok v =>
        rw [hfollow] at h
        cases h
    · cases h
      rfl

theorem Schema.lookup_failsByMissing (s : Schema) : s.lookup.FailsByMissing := by
  intro name r e h
  simp only [Schema.lookup, bind, Except.bind] at h
  split at h
  · rename_i e' hrecord
    cases h
    exact Record.lookup_failsByMissing name r _ hrecord
  · split at h
    · split at h
      · cases h
      · cases h
        rfl
    · cases h

/-! ## Refusals -/

/-- The measures that compute with the values of their field. -/
def Measure.Computes : Measure → Prop
  | .count | .countField => False
  | .sum | .min | .max | .avg => True

/-- An accumulator refuses a record: under the strict policy its field is missing, or it computes
with a field that holds something other than a number. -/
def Aggregate.Refuses (lookup : Lookup) (policy : NullPolicy) (r : Record) (a : Aggregate) : Prop :=
  ∃ field, a.field = some field ∧
    ((policy = .failFast ∧ lookup.Misses field r) ∨
      (a.measure.Computes ∧ ∃ v, lookup field r = .ok v ∧ v ≠ .null ∧ v.isNumeric = false))

variable {lookup : Lookup} {policy : NullPolicy} {r : Record} {a : Aggregate}

namespace Measure

variable {m : Measure} {v w c : Value}

theorem contribution_null (m : Measure) : ∃ c, m.contribution .null = .ok c := by
  cases m with
  | count => exact ⟨_, rfl⟩
  | _ => exact ⟨none, rfl⟩

/-- A value is refused exactly if it is neither NULL nor a number and is computed with. -/
theorem contribution_error_iff (h : v ≠ .null) :
    (∃ e, m.contribution v = .error e) ↔ m.Computes ∧ v.isNumeric = false := by
  have hnull : v.isNull = false := by
    cases v <;> first | rfl | exact absurd rfl h
  cases m with
  | count => simp [contribution, Computes]
  | countField => simp [contribution, hnull, Computes]
  | sum | min | max | avg =>
    cases hnumeric : v.isNumeric <;> simp [contribution, hnull, hnumeric, Computes]

end Measure

namespace Aggregate

theorem alone_of_fieldValue_ok {v : Value} (h : Metric.fieldValue lookup policy r a = .ok v) :
    (∃ e, a.alone lookup policy r = .error e) ↔ ∃ e, a.measure.contribution v = .error e := by
  have hcontribution :
      Metric.contribution lookup policy r (.start a) = a.measure.contribution v := by
    simp only [Metric.contribution, Metric.start, h]
    rfl
  rw [alone, hcontribution]
  cases a.measure.contribution v with
  | error e => exact ⟨fun _ => ⟨e, rfl⟩, fun _ => ⟨e, rfl⟩⟩
  | ok c => simp [Except.map]

theorem alone_of_fieldValue_error {e : QueryError}
    (h : Metric.fieldValue lookup policy r a = .error e) :
    a.alone lookup policy r = .error e := by
  have hcontribution : Metric.contribution lookup policy r (.start a) = .error e := by
    simp only [Metric.contribution, Metric.start, h]
    rfl
  rw [alone, hcontribution]
  rfl

/-- The value of a missing field is NULL, unless the policy is strict. -/
theorem fieldValue_of_misses (hlookup : lookup.FailsByMissing) {field : String}
    (hfield : a.field = some field) (h : lookup.Misses field r) :
    Metric.fieldValue lookup policy r a
      = if policy = .failFast then .error (.execution (.nullField field a.measure) none)
        else .ok .null := by
  unfold Metric.fieldValue
  rw [hfield]
  rcases h with h | ⟨e, h⟩
  · simp only [h, bind, Except.bind, Value.isNull, true_and]
  · simp only [h, hlookup field r e h, bind, Except.bind, if_true, Value.isNull, true_and]

theorem fieldValue_of_present {field : String} {v : Value} (hfield : a.field = some field)
    (h : lookup field r = .ok v) (hv : v ≠ .null) :
    Metric.fieldValue lookup policy r a = .ok v := by
  have hnull : ¬(v.isNull = true ∧ policy = .failFast) := fun hc => hv (Value.isNull_iff.1 hc.1)
  unfold Metric.fieldValue
  rw [hfield]
  simp only [h, bind, Except.bind, if_neg hnull]

theorem refuses_iff {field : String} (hfield : a.field = some field) :
    a.Refuses lookup policy r ↔ (policy = .failFast ∧ lookup.Misses field r) ∨
      (a.measure.Computes ∧ ∃ v, lookup field r = .ok v ∧ v ≠ .null ∧ v.isNumeric = false) := by
  constructor
  · rintro ⟨field', hsome, h⟩
    cases hfield.symm.trans hsome
    exact h
  · exact fun h => ⟨field, hfield, h⟩

/-- A missing field is refused under the strict policy. -/
theorem alone_error_iff_of_misses (hlookup : lookup.FailsByMissing) {field : String}
    (hfield : a.field = some field) (hmisses : lookup.Misses field r) :
    (∃ e, a.alone lookup policy r = .error e) ↔ a.Refuses lookup policy r := by
  have hvalue : Metric.fieldValue lookup policy r a = _ :=
    fieldValue_of_misses hlookup hfield hmisses
  rw [refuses_iff hfield]
  by_cases hpolicy : policy = .failFast
  · rw [if_pos hpolicy] at hvalue
    exact ⟨fun _ => .inl ⟨hpolicy, hmisses⟩, fun _ => ⟨_, alone_of_fieldValue_error hvalue⟩⟩
  · rw [if_neg hpolicy] at hvalue
    obtain ⟨c, hc⟩ := a.measure.contribution_null
    rw [alone_of_fieldValue_ok hvalue, hc]
    refine ⟨nofun, ?_⟩
    rintro (⟨hstrict, -⟩ | ⟨-, v, hv, hne, -⟩)
    · exact absurd hstrict hpolicy
    · rcases hmisses with h | ⟨e, h⟩
      · exact absurd (Except.ok.inj (hv.symm.trans h)) hne
      · cases hv.symm.trans h

/-- A value is refused where it should be a number and is none. -/
theorem alone_error_iff_of_present {field : String} {v : Value} (hfield : a.field = some field)
    (hv : lookup field r = .ok v) (hne : v ≠ .null) :
    (∃ e, a.alone lookup policy r = .error e) ↔ a.Refuses lookup policy r := by
  rw [refuses_iff hfield, alone_of_fieldValue_ok (fieldValue_of_present hfield hv hne),
    Measure.contribution_error_iff hne]
  constructor
  · rintro ⟨hcomputes, hnumeric⟩
    exact .inr ⟨hcomputes, v, hv, hne, hnumeric⟩
  · rintro (⟨-, hnull | ⟨e, herror⟩⟩ | ⟨hcomputes, w, hw, -, hnumeric⟩)
    · exact absurd (Except.ok.inj (hv.symm.trans hnull)) hne
    · cases hv.symm.trans herror
    · cases hv.symm.trans hw
      exact ⟨hcomputes, hnumeric⟩

/-- An accumulator fails on a record exactly if it refuses it. -/
theorem alone_error_iff (hlookup : lookup.FailsByMissing) :
    (∃ e, a.alone lookup policy r = .error e) ↔ a.Refuses lookup policy r := by
  cases hfield : a.field with
  | none =>
    have hvalue : Metric.fieldValue lookup policy r a = .ok .null := by
      simp only [Metric.fieldValue, hfield]
    obtain ⟨c, hc⟩ := a.measure.contribution_null
    have hnone : ¬a.Refuses lookup policy r := by
      rintro ⟨field, hsome, -⟩
      rw [hfield] at hsome
      cases hsome
    rw [alone_of_fieldValue_ok hvalue, hc]
    exact ⟨nofun, fun h => absurd h hnone⟩
  | some field =>
    cases hl : lookup field r with
    | error e => exact alone_error_iff_of_misses hlookup hfield (.inr ⟨e, hl⟩)
    | ok v =>
      by_cases hnull : v = .null
      · exact alone_error_iff_of_misses hlookup hfield (.inl (hnull ▸ hl))
      · exact alone_error_iff_of_present hfield hl hnull

end Aggregate

/-! ## Running values -/

/-- What an accumulator holds after records: NULL or a number. -/
def Value.IsTally (v : Value) : Prop := v = .null ∨ v.isNumeric = true

theorem Value.isNumeric_widenForSum {v : Value} (h : v.isNumeric = true) :
    v.widenForSum.isNumeric = true := by
  cases v <;> first | rfl | exact h

theorem Measure.isTally_initial (m : Measure) : m.initial.IsTally := by
  cases m with
  | count | countField => exact .inr rfl
  | _ => exact .inl rfl

/-- A contribution is a number. -/
theorem Measure.isNumeric_contribution {m : Measure} {v c : Value}
    (h : m.contribution v = .ok (some c)) : c.isNumeric = true := by
  cases m with
  | count =>
    cases h
    rfl
  | countField =>
    cases v <;> cases h <;> rfl
  | sum | avg =>
    simp only [contribution] at h
    split at h
    · cases h
    · split at h
      · rename_i hnumeric
        cases h
        exact Value.isNumeric_widenForSum hnumeric
      · cases h
  | min | max =>
    simp only [contribution] at h
    split at h
    · cases h
    · split at h
      · rename_i hnumeric
        cases h
        exact hnumeric
      · cases h

/-- A record that is not refused leaves NULL or a number. -/
theorem Aggregate.isTally_alone {v : Value} (h : a.alone lookup policy r = .ok v) : v.IsTally := by
  obtain ⟨w, c, -, hc, rfl⟩ := fieldValue_of_alone h
  cases c with
  | none => exact a.measure.isTally_initial
  | some c => exact .inr (Measure.isNumeric_contribution hc)

/-- Numbers can be added. -/
theorem Value.add_of_isNumeric {v w : Value} (hv : v.isNumeric = true) (hw : w.isNumeric = true) :
    ∃ u, v.add w = .ok u ∧ u.isNumeric = true := by
  obtain ⟨pair, hpair⟩ := Option.isSome_iff_exists.1 ((NumberPair.isSome_of?_iff v w).2 ⟨hv, hw⟩)
  cases pair <;> exact ⟨_, by simp only [add, arithmetic, hpair]; rfl, rfl⟩

/-- Numbers can be compared. -/
theorem Value.compare_of_isNumeric {v w : Value} (hv : v.isNumeric = true)
    (hw : w.isNumeric = true) : ∃ o, v.compare w = .ok o := by
  obtain ⟨pair, hpair⟩ := Option.isSome_iff_exists.1 ((NumberPair.isSome_of?_iff v w).2 ⟨hv, hw⟩)
  refine ⟨pair.compare, ?_⟩
  unfold compare
  split
  · cases hpair
  · cases hpair
  · rw [hpair]

/-- Numbers reduce to a number. -/
theorem Measure.reduce_of_isNumeric (m : Measure) {v w : Value} (hv : v.isNumeric = true)
    (hw : w.isNumeric = true) : ∃ u, m.reduce v w = .ok u ∧ u.isNumeric = true := by
  have hvnull : v.isNull = false := Value.isNull_of_isNumeric hv
  have hwnull : w.isNull = false := Value.isNull_of_isNumeric hw
  obtain ⟨u, hadd, hu⟩ := Value.add_of_isNumeric hv hw
  obtain ⟨o, ho⟩ := Value.compare_of_isNumeric hw hv
  simp only [reduce, hvnull, hwnull, Bool.false_eq_true, if_false]
  cases m with
  | count | countField | sum | avg => exact ⟨u, hadd, hu⟩
  | min =>
    refine ⟨if o = .lt then w else v, by rw [ho]; rfl, ?_⟩
    split
    · exact hw
    · exact hv
  | max =>
    refine ⟨if o = .gt then w else v, by rw [ho]; rfl, ?_⟩
    split
    · exact hw
    · exact hv

/-- Running values reduce to a running value. -/
theorem Measure.reduce_of_isTally (m : Measure) {v w : Value} (hv : v.IsTally) (hw : w.IsTally) :
    ∃ u, m.reduce v w = .ok u ∧ u.IsTally := by
  by_cases hwnull : w.isNull = true
  · exact ⟨v, by simp only [reduce, if_pos hwnull], hv⟩
  by_cases hvnull : v.isNull = true
  · exact ⟨w, by simp only [reduce, if_neg hwnull, if_pos hvnull], hw⟩
  have hv' : v.isNumeric = true := hv.resolve_left fun h => hvnull (Value.isNull_iff.2 h)
  have hw' : w.isNumeric = true := hw.resolve_left fun h => hwnull (Value.isNull_iff.2 h)
  obtain ⟨u, hu, hnumeric⟩ := m.reduce_of_isNumeric hv' hw'
  exact ⟨u, hu, .inr hnumeric⟩

/-! ## Summaries -/

/-- A summary of records: NULL or a number for each of its accumulators. -/
def Summary.IsTally (accumulators : List Aggregate) (s : Summary) : Prop :=
  ∃ value, s = .valued accumulators value ∧ ∀ a ∈ accumulators, (value a).IsTally

/-- Summaries of records combine to one of the same kind. -/
theorem Summary.IsTally.combine {accumulators : List Aggregate} {s other : Summary}
    (hdistinct : Aggregate.Distinct accumulators) (h : s.IsTally accumulators)
    (h' : other.IsTally accumulators) :
    ∃ both, s.combine other = .done () both ∧ both.IsTally accumulators := by
  obtain ⟨value, rfl, hvalue⟩ := h
  obtain ⟨value', rfl, hvalue'⟩ := h'
  have hreduces : ∀ a ∈ accumulators,
      ∃ u, a.measure.reduce (value a) (value' a) = .ok u ∧ u.IsTally :=
    fun a ha => a.measure.reduce_of_isTally (hvalue a ha) (hvalue' a ha)
  choose! both hreduce hboth using hreduces
  exact ⟨valued accumulators both, combine_valued hdistinct hreduce, both, rfl, hboth⟩

end StreamQuery
