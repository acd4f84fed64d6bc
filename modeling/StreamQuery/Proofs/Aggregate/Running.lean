import StreamQuery.Proofs.Aggregate.Valued
import StreamQuery.Proofs.Fold
set_option autoImplicit false

/-!
# Running values over records

What an accumulator holds after some records, when its field is absent, NULL or a LONG in
each of them: the numbers that the records contribute are folded by one operation of the
measure.  The running values of two parts reduce to that of both, so it does not matter how
records come to a summary.
-/

namespace StreamQuery

/-! ## Folds of numbers -/

namespace Measure

/-- The operation that a measure folds LONGs by. -/
def operation : Measure → Int64 → Int64 → Int64
  | min => Min.min
  | max => Max.max
  | _ => (· + ·)

/-- The running value after some contributions. -/
def running (m : Measure) (ns : List Int64) : Value :=
  match foldAll? m.operation ns with
  | some n => .long n
  | none => m.initial

theorem toInt_min (a b : Int64) : (Min.min a b).toInt = Min.min a.toInt b.toInt := by
  show (if a ≤ b then a else b).toInt = _
  split <;> rename_i h <;> rw [Int64.le_iff_toInt_le] at h <;> omega

theorem toInt_max (a b : Int64) : (Max.max a b).toInt = Max.max a.toInt b.toInt := by
  show (if a ≤ b then b else a).toInt = _
  split <;> rename_i h <;> rw [Int64.le_iff_toInt_le] at h <;> omega

instance (m : Measure) : Std.Associative m.operation where
  assoc a b c := by
    cases m with
    | min =>
      apply Int64.toInt_inj.1
      simp only [operation, toInt_min]
      omega
    | max =>
      apply Int64.toInt_inj.1
      simp only [operation, toInt_max]
      omega
    | _ => exact Int64.add_assoc a b c

instance (m : Measure) : Std.Commutative m.operation where
  comm a b := by
    cases m with
    | min =>
      apply Int64.toInt_inj.1
      simp only [operation, toInt_min]
      omega
    | max =>
      apply Int64.toInt_inj.1
      simp only [operation, toInt_max]
      omega
    | _ => exact Int64.add_comm a b

/-- Two LONGs reduce by the operation. -/
theorem reduce_long (m : Measure) (a b : Int64) :
    m.reduce (.long a) (.long b) = .ok (.long (m.operation a b)) := by
  cases m with
  | min =>
    have hmin : Min.min a b = if compare b.toInt a.toInt = .lt then b else a := by
      apply Int64.toInt_inj.1
      rw [toInt_min]
      split <;> rename_i h <;> rw [Int.compare_eq_lt] at h <;> omega
    rw [operation, hmin]
    show Except.ok (if compare b.toInt a.toInt = .lt then Value.long b else .long a) = _
    split <;> rfl
  | max =>
    have hmax : Max.max a b = if compare b.toInt a.toInt = .gt then b else a := by
      apply Int64.toInt_inj.1
      rw [toInt_max]
      split <;> rename_i h <;> rw [Int.compare_eq_gt] at h <;> omega
    rw [operation, hmax]
    show Except.ok (if compare b.toInt a.toInt = .gt then Value.long b else .long a) = _
    split <;> rfl
  | _ => rfl

/-- The value before the first contribution is neutral. -/
theorem reduce_initial (m : Measure) (n : Int64) :
    m.reduce (.long n) m.initial = .ok (.long n) ∧
      m.reduce m.initial (.long n) = .ok (.long n) := by
  cases m with
  | count | countField =>
    refine ⟨?_, ?_⟩
    · show Except.ok (Value.long (n + 0)) = _
      rw [Int64.add_zero]
    · show Except.ok (Value.long (0 + n)) = _
      rw [Int64.zero_add]
  | _ => exact ⟨rfl, rfl⟩

theorem reduce_initial_initial (m : Measure) : m.reduce m.initial m.initial = .ok m.initial := by
  cases m <;> rfl

/-- The running values of two parts reduce to that of both. -/
theorem reduce_running (m : Measure) (ns ns' : List Int64) :
    m.reduce (m.running ns) (m.running ns') = .ok (m.running (ns ++ ns')) := by
  cases ns with
  | nil =>
    cases ns' with
    | nil => exact m.reduce_initial_initial
    | cons n' ns' => exact (m.reduce_initial _).2
  | cons n ns =>
    cases ns' with
    | nil =>
      rw [List.append_nil]
      exact (m.reduce_initial _).1
    | cons n' ns' =>
      have happend := foldl_append_cons m.operation n ns n' ns'
      show m.reduce (.long (ns.foldl m.operation n)) (.long (ns'.foldl m.operation n')) = _
      rw [m.reduce_long, ← happend]
      rfl

/-- The order of the contributions makes no difference. -/
theorem running_perm (m : Measure) {ns ns' : List Int64} (h : ns.Perm ns') :
    m.running ns = m.running ns' := by
  rw [running, foldAll?_perm m.operation h]
  rfl

/-- A running value is a LONG or NULL. -/
theorem running_cases (m : Measure) (ns : List Int64) :
    (∃ n, m.running ns = .long n) ∨ m.running ns = .null := by
  unfold running
  split
  · rename_i n _
    exact .inl ⟨n, rfl⟩
  · cases m with
    | count | countField => exact .inl ⟨0, rfl⟩
    | _ => exact .inr rfl

end Measure

/-! ## What a record contributes -/

/-- The LONG that a field of a record holds, if it does. -/
def fieldLong? (lookup : Lookup) (field : Option String) (r : Record) : Option Int64 :=
  match field with
  | none => none
  | some field =>
    match lookup field r with
    | .ok (.long n) => some n
    | _ => none

namespace Aggregate

/-- The field of an aggregate is absent from a record, NULL or a LONG. -/
def Suits (lookup : Lookup) (r : Record) (a : Aggregate) : Prop :=
  ∀ field, a.field = some field →
    (∃ e, lookup field r = .error e ∧ e.isLookup = true) ∨ lookup field r = .ok .null ∨
      ∃ n, lookup field r = .ok (.long n)

/-- The number that a record contributes to an aggregate, if any. -/
def input? (lookup : Lookup) (a : Aggregate) (r : Record) : Option Int64 :=
  match a.measure with
  | .count => some 1
  | .countField => (fieldLong? lookup a.field r).map fun _ => 1
  | _ => fieldLong? lookup a.field r

/-- The running value after some records. -/
def runningOver (lookup : Lookup) (a : Aggregate) (rs : List Record) : Value :=
  a.measure.running (rs.filterMap (a.input? lookup))

variable {lookup : Lookup} {r : Record} {a : Aggregate}

theorem fieldValue_of_suits (h : a.Suits lookup r) :
    Metric.fieldValue lookup .skip r a
      = .ok ((fieldLong? lookup a.field r).elim .null .long) := by
  unfold Metric.fieldValue fieldLong?
  cases hfield : a.field with
  | none => rfl
  | some field =>
    rcases h field hfield with ⟨e, hlookup, he⟩ | hlookup | ⟨n, hlookup⟩
    · simp only [hlookup, he]
      rfl
    · simp only [hlookup]
      rfl
    · simp only [hlookup]
      rfl

/-- A record contributes its number. -/
theorem contribution_of_suits (h : a.Suits lookup r) (v : Value) :
    Metric.contribution lookup .skip r ⟨a, v⟩ = .ok ((a.input? lookup r).map .long) := by
  obtain ⟨measure, field, name⟩ := a
  simp only [Metric.contribution, fieldValue_of_suits h, input?]
  cases fieldLong? lookup field r <;> cases measure <;> rfl

theorem reduce_runningOver (lookup : Lookup) (a : Aggregate) (rs rs' : List Record) :
    a.measure.reduce (a.runningOver lookup rs) (a.runningOver lookup rs')
      = .ok (a.runningOver lookup (rs ++ rs')) := by
  rw [runningOver, runningOver, Measure.reduce_running, runningOver, List.filterMap_append]

theorem runningOver_perm (lookup : Lookup) (a : Aggregate) {rs rs' : List Record}
    (h : rs.Perm rs') : a.runningOver lookup rs = a.runningOver lookup rs' :=
  Measure.running_perm _ (h.filterMap _)

/-- The running value depends on the accumulator, not on the name. -/
theorem runningOver_congr {b : Aggregate} (h : a.sameAs b = true) (rs : List Record) :
    a.runningOver lookup rs = b.runningOver lookup rs := by
  obtain ⟨hmeasure, hfield⟩ := sameAs_iff.1 h
  have hinput : a.input? lookup = b.input? lookup := by
    funext r
    rw [input?, input?, hmeasure, hfield]
  rw [runningOver, runningOver, hmeasure, hinput]

end Aggregate

/-! ## Summaries of records -/

namespace Summary

/-- The summary of some records. -/
def ofRecords (lookup : Lookup) (accumulators : List Aggregate) (rs : List Record) : Summary :=
  ⟨accumulators.map fun a => ⟨a, a.runningOver lookup rs⟩⟩

variable {lookup : Lookup} {accumulators : List Aggregate} {r : Record}

theorem alone_of_suits {a : Aggregate} (h : a.Suits lookup r) :
    a.alone lookup .skip r = .ok (a.runningOver lookup [r]) := by
  have hcontribution := Aggregate.contribution_of_suits h a.measure.initial
  rw [Aggregate.alone, Metric.start, hcontribution, Aggregate.runningOver, List.filterMap_cons]
  cases a.input? lookup r <;> rfl

/-- The summary of a single record. -/
theorem consume_start (h : ∀ a ∈ accumulators, a.Suits lookup r) :
    (start accumulators).consume lookup .skip r = .done () (ofRecords lookup accumulators [r]) :=
  consume_start_of_ok fun a ha => alone_of_suits (h a ha)

/-- The summaries of two parts combine to that of both. -/
theorem combine_ofRecords (lookup : Lookup) {accumulators : List Aggregate}
    (h : Aggregate.Distinct accumulators) (rs rs' : List Record) :
    (ofRecords lookup accumulators rs).combine (ofRecords lookup accumulators rs')
      = .done () (ofRecords lookup accumulators (rs ++ rs')) :=
  combine_valued h fun a _ => a.reduce_runningOver lookup rs rs'

end Summary

end StreamQuery
