import StreamQuery.Proofs.Aggregate.Running
set_option autoImplicit false

/-!
# Answers over records

What each aggregate answers over some records, said without accumulators, and that the
summary of the records answers just that.  Sums and counts are those of 64-bit integers, so
a count is the number of records as long as there are fewer than 2^63 of them.
-/

namespace StreamQuery

namespace Aggregate

/-- What an aggregate answers over some records. -/
def answer (lookup : Lookup) (a : Aggregate) (rs : List Record) : Value :=
  let ns := rs.filterMap (fieldLong? lookup a.field)
  match a.measure with
  | .count => .long (Int64.ofNat rs.length)
  | .countField => .long (Int64.ofNat ns.length)
  | .sum => if ns = [] then .null else .long ns.sum
  | .min => ns.min?.elim .null .long
  | .max => ns.max?.elim .null .long
  | .avg =>
    if ns = [] then .null else Value.average (.long ns.sum) (.long (Int64.ofNat ns.length))

/-- A count is the number of the records, as long as a LONG holds it. -/
theorem toInt_answer_count (lookup : Lookup) (field name : Option String) {rs : List Record}
    (h : rs.length < 2 ^ 63) :
    ∃ n, answer lookup ⟨.count, field, name⟩ rs = .long n ∧ n.toInt = rs.length := by
  refine ⟨Int64.ofNat rs.length, rfl, ?_⟩
  exact Int64.toInt_ofNat_of_lt h

end Aggregate

/-! ## Running values in closed form -/

namespace Measure

theorem foldAll?_add (ns : List Int64) :
    foldAll? (· + ·) ns = if ns = [] then none else some ns.sum := by
  cases ns with
  | nil => rfl
  | cons n ns =>
    rw [if_neg (List.cons_ne_nil n ns), List.sum_eq_foldl, List.foldl_cons, Int64.zero_add]
    rfl

theorem sum_ones {ι : Type} (xs : List ι) :
    (xs.map fun _ => (1 : Int64)).sum = Int64.ofNat xs.length := by
  induction xs with
  | nil => rfl
  | cons x xs ih =>
    rw [List.map_cons, List.sum_cons, ih, List.length_cons, Int64.ofNat_add, Int64.add_comm]
    rfl

/-- A measure that adds up from zero counts ones. -/
theorem running_ones {m : Measure} (hadd : m.operation = (· + ·)) (hzero : m.initial = .long 0)
    {ι : Type} (xs : List ι) :
    m.running (xs.map fun _ => 1) = .long (Int64.ofNat xs.length) := by
  rw [running, hadd, foldAll?_add, sum_ones]
  cases xs with
  | nil => exact hzero
  | cons x xs => rfl

/-- A measure that adds up from NULL is the sum of what there is. -/
theorem running_sum {m : Measure} (hadd : m.operation = (· + ·)) (hnull : m.initial = .null)
    (ns : List Int64) : m.running ns = if ns = [] then .null else .long ns.sum := by
  rw [running, hadd, foldAll?_add]
  by_cases h : ns = []
  · rw [if_pos h, if_pos h]
    exact hnull
  · rw [if_neg h, if_neg h]

theorem running_min (ns : List Int64) : Measure.min.running ns = ns.min?.elim .null .long := by
  cases ns <;> rfl

theorem running_max (ns : List Int64) : Measure.max.running ns = ns.max?.elim .null .long := by
  cases ns <;> rfl

end Measure

/-! ## The answers of a summary -/

namespace Aggregate

variable {lookup : Lookup} {field : Option String}

/-- Records are counted. -/
theorem runningOver_count (name : Option String) (rs : List Record) :
    runningOver lookup ⟨.count, field, name⟩ rs = .long (Int64.ofNat rs.length) := by
  rw [← Measure.running_ones (m := .count) rfl rfl rs, ← List.filterMap_eq_map']
  rfl

/-- The records whose field holds a number are counted. -/
theorem runningOver_countField (name : Option String) (rs : List Record) :
    runningOver lookup ⟨.countField, field, name⟩ rs
      = .long (Int64.ofNat (rs.filterMap (fieldLong? lookup field)).length) := by
  rw [← Measure.running_ones (m := .countField) rfl rfl, List.map_filterMap]
  rfl

end Aggregate

namespace Summary

variable (lookup : Lookup) {accumulators requested : List Aggregate} {a : Aggregate}

/-- An accumulator is found by its measure and field. -/
theorem value?_ofRecords (h : ∃ b ∈ accumulators, b.sameAs a = true) (rs : List Record) :
    (ofRecords lookup accumulators rs).value? a = some (a.runningOver lookup rs) := by
  have hfind : ((ofRecords lookup accumulators rs).metrics.find? fun m =>
      m.aggregate.sameAs a).isSome = true := by
    obtain ⟨b, hb, hsame⟩ := h
    rw [List.find?_isSome]
    exact ⟨⟨b, b.runningOver lookup rs⟩, List.mem_map_of_mem hb, hsame⟩
  obtain ⟨m, hm⟩ := Option.isSome_iff_exists.1 hfind
  have hsame := List.find?_some hm
  obtain ⟨b, -, rfl⟩ := List.mem_map.1 (List.mem_of_find?_eq_some hm)
  rw [value?, hm, ← Aggregate.runningOver_congr hsame]
  rfl

/-- A summary of records answers the aggregates that it was made for. -/
theorem result_ofRecords (h : a ∈ requested) (rs : List Record) :
    (ofRecords lookup (Aggregate.accumulators requested) rs).result a = a.answer lookup rs := by
  have hself := value?_ofRecords lookup
    (Aggregate.exists_accumulator h (Aggregate.mem_needed_self a)) rs
  obtain ⟨measure, field, name⟩ := a
  rw [result, hself]
  cases measure with
  | count => exact Aggregate.runningOver_count name rs
  | countField => exact Aggregate.runningOver_countField name rs
  | sum => exact Measure.running_sum rfl rfl _
  | min => exact Measure.running_min _
  | max => exact Measure.running_max _
  | avg =>
    have hsum (field : Option String) : Aggregate.runningOver lookup ⟨.avg, field, name⟩ rs = _ :=
      Measure.running_sum rfl rfl (rs.filterMap (fieldLong? lookup field))
    cases field with
    | none =>
      have hempty : rs.filterMap (fieldLong? lookup none) = [] :=
        List.filterMap_eq_nil_iff.2 fun _ _ => rfl
      have hanswer : Aggregate.answer lookup ⟨.avg, none, name⟩ rs = .null := if_pos hempty
      rw [hanswer]
      show Aggregate.runningOver lookup ⟨.avg, none, name⟩ rs = .null
      rw [hsum, if_pos hempty]
    | some field =>
      have hcompanion := value?_ofRecords lookup
        (Aggregate.exists_accumulator h (Aggregate.companion_mem_needed rfl rfl)) rs
      show Value.average (Aggregate.runningOver lookup ⟨.avg, some field, name⟩ rs) _ = _
      rw [hcompanion, hsum, Option.getD_some, Aggregate.companion,
        Aggregate.runningOver_countField, Aggregate.answer]
      by_cases hempty : rs.filterMap (fieldLong? lookup (some field)) = []
      · rw [if_pos hempty, if_pos hempty]
        rfl
      · rw [if_neg hempty, if_neg hempty]

end Summary

end StreamQuery
