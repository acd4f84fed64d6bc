import StreamQuery.Proofs.Aggregate.Extremes
import StreamQuery.Proofs.Aggregate.Histories
import StreamQuery.Proofs.Aggregate.Means
set_option autoImplicit false

/-!
# Aggregates as if requested alone

Aggregates of one measure and field share an accumulator, and an average reads a count that nobody
requested.  None of this shows: the result of an aggregate is what its measure makes of the values
of its field, whatever else is requested (`Summary.results_as_alone`).

A summary takes some records exactly if each of its accumulators takes them on its own
(`Summary.consumeAll_start_eq_done_iff`), and what an accumulator then holds is a plain fold of
values (`Measure.evaluate_of_foldValues`, `Measure.foldFirst_of_foldValues`).
-/

namespace StreamQuery

/-! ## What a measure makes of values -/

namespace Value

/-- The values that are not NULL. -/
def present (vs : List Value) : List Value := vs.filter fun v => !v.isNull

/-- The first value with the others folded in from the left; NULL if there are none. -/
def foldFirst (op : Value → Value → Outcome Value) : List Value → Outcome Value
  | [] => .ok .null
  | v :: vs => vs.foldlM op v

/-- A value if it is strictly on one side of the best one so far, or else the best one. -/
def keep (side : Ordering) (best v : Value) : Outcome Value :=
  (v.compare best).map fun o => if o = side then v else best

/-- The sum of the values that are not NULL, in the 64-bit kinds. -/
def sumOf (vs : List Value) : Outcome Value := foldFirst add ((present vs).map widenForSum)

theorem present_cons {v : Value} (h : v.isNull = false) (vs : List Value) :
    present (v :: vs) = v :: present vs := by
  rw [present, List.filter_cons, h]
  rfl

end Value

/-- What a measure makes of the values of its field.  A count is a LONG, and so it is the number of
values as long as that is below 2^63. -/
def Measure.evaluate (vs : List Value) : Measure → Outcome Value
  | count => .ok (.long (.ofNat vs.length))
  | countField => .ok (.long (.ofNat (Value.present vs).length))
  | sum => Value.sumOf vs
  | min => Value.foldFirst (Value.keep .lt) (Value.present vs)
  | max => Value.foldFirst (Value.keep .gt) (Value.present vs)
  | avg => (Value.sumOf vs).map fun sum =>
      sum.average (.long (.ofNat (Value.present vs).length))

/-- The value of a field in a record; NULL where there is no field, or none that can be resolved. -/
def Lookup.valueOf (lookup : Lookup) (field : Option String) (r : Record) : Value :=
  match field with
  | none => .null
  | some field =>
    match lookup field r with
    | .ok v => v
    | .error _ => .null

/-- What an aggregate makes of some records, which depends on its measure and field alone. -/
def Aggregate.evaluate (lookup : Lookup) (a : Aggregate) (rs : List Record) : Outcome Value :=
  a.measure.evaluate (rs.map (lookup.valueOf a.field))

/-! ## Running values as folds -/

namespace Measure

variable {m : Measure} {u v w : Value} {vs : List Value}

/-- The form in which a number is folded. -/
def shape : Measure → Value → Value
  | sum | avg => Value.widenForSum
  | _ => id

/-- How a number is folded into another one. -/
def join : Measure → Value → Value → Outcome Value
  | min => Value.keep .lt
  | max => Value.keep .gt
  | _ => Value.add

theorem contribution_of_isNumeric (hm : m.Computes) (h : v.isNumeric = true) :
    m.contribution v = .ok (some (m.shape v)) := by
  have hnull : v.isNull = false := Value.isNull_of_isNumeric h
  cases m with
  | count | countField => cases hm
  | _ => simp [contribution, shape, hnull, h]

theorem reduce_eq_join (hw : w.isNumeric = true) (hv : v.isNumeric = true) :
    m.reduce w v = m.join w v := by
  have hwnull : w.isNull = false := Value.isNull_of_isNumeric hw
  have hvnull : v.isNull = false := Value.isNull_of_isNumeric hv
  cases m <;> simp [reduce, join, hwnull, hvnull, Value.keep]

/-- A value that is taken is NULL and changes nothing, or a number that is reduced. -/
theorem foldIn_cases (hm : m.Computes) (hfold : m.foldIn w v = .ok u) :
    (v = .null ∧ u = w) ∨
      (v.isNull = false ∧ (m.shape v).isNumeric = true ∧ m.reduce w (m.shape v) = .ok u) := by
  obtain ⟨c, hc, hreduce⟩ := bind_eq_ok_iff.1 hfold
  by_cases hnull : v = .null
  · have hnone : m.contribution .null = .ok none := by
      cases m <;> first | rfl | cases hm
    cases hnone.symm.trans (hnull ▸ hc)
    exact .inl ⟨hnull, (Except.ok.inj hreduce).symm⟩
  · have hnumeric : v.isNumeric = true := by
      rw [← Bool.not_eq_false]
      intro hfalse
      obtain ⟨e, he⟩ := (contribution_error_iff hnull).2 ⟨hm, hfalse⟩
      cases he.symm.trans hc
    have hshape := contribution_of_isNumeric hm hnumeric
    cases hshape.symm.trans hc
    exact .inr ⟨Value.isNull_of_isNumeric hnumeric, isNumeric_contribution hshape, hreduce⟩

/-- From a number on, the values that are not NULL are folded. -/
theorem foldlM_join_of_isNumeric (hm : m.Computes) (hw : w.isNumeric = true)
    (hfold : vs.foldlM m.foldIn w = .ok u) :
    ((Value.present vs).map m.shape).foldlM m.join w = .ok u := by
  induction vs generalizing w with
  | nil => exact hfold
  | cons v vs ih =>
    obtain ⟨w', hw', hrest⟩ := bind_eq_ok_iff.1 hfold
    rcases foldIn_cases hm hw' with ⟨rfl, rfl⟩ | ⟨hnull, hshape, hreduce⟩
    · exact ih hw hrest
    · obtain ⟨w'', hw'', hnumeric⟩ := m.reduce_of_isNumeric hw hshape
      cases hw''.symm.trans hreduce
      rw [Value.present_cons hnull, List.map_cons, List.foldlM_cons, ← reduce_eq_join hw hshape,
        hreduce]
      exact ih hnumeric hrest

/-- From the start, the values that are not NULL are folded into the first of them. -/
theorem foldFirst_of_foldValues (hm : m.Computes) (hfold : m.foldValues vs = .ok u) :
    Value.foldFirst m.join ((Value.present vs).map m.shape) = .ok u := by
  have hinitial : m.initial = .null := by
    cases m <;> first | rfl | cases hm
  rw [foldValues, hinitial] at hfold
  induction vs with
  | nil => exact hfold
  | cons v vs ih =>
    obtain ⟨w, hw, hrest⟩ := bind_eq_ok_iff.1 hfold
    rcases foldIn_cases hm hw with ⟨rfl, rfl⟩ | ⟨hnull, hshape, hreduce⟩
    · exact ih hrest
    · rw [reduce_null_left] at hreduce
      cases hreduce
      rw [Value.present_cons hnull]
      exact foldlM_join_of_isNumeric hm hshape hrest

/-- A measure that adds one for some values counts them. -/
theorem foldlM_foldIn_ones {p : Value → Bool}
    (h : ∀ n v, m.foldIn (.long n) v = .ok (.long (if p v then n + 1 else n))) (n : Int64) :
    vs.foldlM m.foldIn (.long n) = .ok (.long (n + .ofNat (vs.filter p).length)) := by
  induction vs generalizing n with
  | nil => simp [pure, Except.pure]
  | cons v vs ih =>
    rw [List.foldlM_cons, h]
    refine (ih _).trans ?_
    cases hp : p v with
    | false => simp [hp]
    | true =>
      have hlength : Int64.ofNat ((v :: vs).filter p).length
          = 1 + .ofNat (vs.filter p).length := by
        rw [List.filter_cons_of_pos hp, List.length_cons, Int64.ofNat_add, Int64.add_comm]
        rfl
      rw [hlength, if_pos rfl, Int64.add_assoc]

theorem foldIn_count (n : Int64) (v : Value) :
    Measure.count.foldIn (.long n) v = .ok (.long (n + 1)) := rfl

theorem foldIn_countField (n : Int64) (v : Value) :
    Measure.countField.foldIn (.long n) v = .ok (.long (if !v.isNull then n + 1 else n)) := by
  cases v <;> rfl

/-- Except for an average, which reads two accumulators, a running value is what its measure makes
of the values. -/
theorem evaluate_of_foldValues (hm : m ≠ .avg) (h : m.foldValues vs = .ok u) :
    m.evaluate vs = .ok u := by
  cases m with
  | count =>
    rw [foldValues, initial, foldlM_foldIn_ones (p := fun _ => true) foldIn_count] at h
    simpa [evaluate] using h
  | countField =>
    rw [foldValues, initial, foldlM_foldIn_ones foldIn_countField] at h
    simpa [evaluate, Value.present] using h
  | sum => exact foldFirst_of_foldValues (m := .sum) trivial h
  | min => simpa [evaluate, shape, join] using foldFirst_of_foldValues (m := .min) trivial h
  | max => simpa [evaluate, shape, join] using foldFirst_of_foldValues (m := .max) trivial h
  | avg => cases hm rfl

end Measure

/-! ## Accumulators on their own -/

namespace Aggregate

/-- Folds a record into a running value. -/
def fold (lookup : Lookup) (policy : NullPolicy) (a : Aggregate) (current : Value) (r : Record) :
    Outcome Value :=
  Metric.fieldValue lookup policy r a >>= a.measure.foldIn current

/-- The running value after some records. -/
def foldAll (lookup : Lookup) (policy : NullPolicy) (a : Aggregate) (rs : List Record) :
    Outcome Value :=
  rs.foldlM (a.fold lookup policy) a.measure.initial

variable {lookup : Lookup} {policy : NullPolicy} {r : Record} {rs : List Record}
  {a b : Aggregate} {u v w : Value}

/-- The value that is read from a field that is not refused. -/
theorem valueOf_of_fieldValue (h : Metric.fieldValue lookup policy r a = .ok v) :
    lookup.valueOf a.field r = v := by
  unfold Metric.fieldValue at h
  unfold Lookup.valueOf
  cases hfield : a.field with
  | none =>
    rw [hfield] at h
    exact Except.ok.inj h
  | some field =>
    rw [hfield] at h
    cases hl : lookup field r with
    | ok w =>
      simp only [hl, bind, Except.bind] at h ⊢
      split at h
      · cases h
      · exact Except.ok.inj h
    | error e =>
      simp only [hl, bind, Except.bind] at h ⊢
      split at h
      · split at h
        · cases h
        · exact Except.ok.inj h
      · cases h

/-- A running value comes from the values of the field. -/
theorem foldlM_of_fold (h : rs.foldlM (a.fold lookup policy) w = .ok u) :
    (rs.map (lookup.valueOf a.field)).foldlM a.measure.foldIn w = .ok u := by
  induction rs generalizing w with
  | nil => exact h
  | cons r rs ih =>
    obtain ⟨w', hw', hrest⟩ := bind_eq_ok_iff.1 h
    obtain ⟨v, hv, hfold⟩ := bind_eq_ok_iff.1 hw'
    rw [List.map_cons, List.foldlM_cons, valueOf_of_fieldValue hv, hfold]
    exact ih hrest

theorem foldValues_of_foldAll (h : a.foldAll lookup policy rs = .ok u) :
    a.measure.foldValues (rs.map (lookup.valueOf a.field)) = .ok u :=
  foldlM_of_fold h

/-- What an aggregate makes of records depends on its measure and field, not on its name. -/
theorem evaluate_congr (h : a.sameAs b = true) : a.evaluate lookup rs = b.evaluate lookup rs := by
  obtain ⟨hmeasure, hfield⟩ := sameAs_iff.1 h
  rw [evaluate, evaluate, hmeasure, hfield]

/-- A count of a field cannot be requested. -/
theorem measure_ne_of_request {measure : Measure} {field name : Option String}
    (h : request measure field name = .ok a) : a.measure ≠ .countField := by
  unfold request at h
  split at h
  · cases h
  · rename_i hinternal
    split at h
    · cases h
    · split at h
      · cases h
      · cases h
        exact fun hcount => hinternal (congrArg Measure.isInternal hcount)

/-- The running value depends on the measure and the field, not on the name. -/
theorem foldAll_congr (h : a.sameAs b = true) :
    a.foldAll lookup policy rs = b.foldAll lookup policy rs := by
  obtain ⟨measure, field, name⟩ := a
  obtain ⟨measure', field', name'⟩ := b
  obtain ⟨rfl, rfl⟩ := sameAs_iff.1 h
  rfl

end Aggregate

/-! ## Accumulators in a summary -/

namespace Metric

variable {lookup : Lookup} {policy : NullPolicy}

theorem take_eq_map (r : Record) (m : Metric) :
    m.take lookup policy r
      = (m.aggregate.fold lookup policy m.value r).map fun value => { m with value } := by
  unfold take contribution Aggregate.fold
  cases fieldValue lookup policy r m.aggregate with
  | error e => rfl
  | ok v =>
    show (m.aggregate.measure.contribution v >>= m.absorbAny)
      = (m.aggregate.measure.foldIn m.value v).map _
    unfold Measure.foldIn
    cases m.aggregate.measure.contribution v with
    | error e => rfl
    | ok c => cases c <;> rfl

/-- A metric takes records as its accumulator does. -/
theorem foldlM_take (rs : List Record) (m : Metric) :
    rs.foldlM (fun m r => m.take lookup policy r) m
      = (rs.foldlM (m.aggregate.fold lookup policy) m.value).map fun value => { m with value } := by
  induction rs generalizing m with
  | nil => rfl
  | cons r rs ih =>
    rw [List.foldlM_cons, List.foldlM_cons, take_eq_map]
    cases m.aggregate.fold lookup policy m.value r with
    | error e => rfl
    | ok v => exact ih { m with value := v }

end Metric

namespace Summary

variable {lookup : Lookup} {policy : NullPolicy} {rs : List Record} {s s' : Summary}
  {accumulators requested requested' : List Aggregate} {a b : Aggregate}

/-- A summary takes records exactly if each of its metrics does. -/
theorem consumeAll_eq_done_iff :
    s.consumeAll lookup policy rs = .done () s'
      ↔ List.Forall₂ (fun m m' => rs.foldlM (fun m r => m.take lookup policy r) m = .ok m')
          s.metrics s'.metrics := by
  induction rs generalizing s with
  | nil =>
    have hnil (m m' : Metric) :
        [].foldlM (fun m r => m.take lookup policy r) m = .ok m' ↔ m = m' :=
      (Except.ok.injEq m m').to_iff
    simp only [hnil, List.forall₂_eq_eq_eq]
    exact ⟨fun h => congrArg metrics (Prod.mk.inj h).2,
      fun h => congrArg (Transition.done ()) (congrArg Summary.mk h)⟩
  | cons r rs ih =>
    rw [consumeAll, Transition.andThen_eq_done_iff]
    simp only [List.foldlM_cons, bind_eq_ok_iff, ← exists_forall₂_comp_iff]
    constructor
    · rintro ⟨⟨⟩, t, hr, hrest⟩
      exact ⟨t.metrics, consume_eq_done_iff.1 hr, ih.1 hrest⟩
    · rintro ⟨metrics, hr, hrest⟩
      exact ⟨(), ⟨metrics⟩, consume_eq_done_iff.2 hr, ih.2 hrest⟩

/-- A summary takes records from the start exactly if each of its accumulators takes them on its
own, and then it holds what these hold. -/
theorem consumeAll_start_eq_done_iff :
    (start accumulators).consumeAll lookup policy rs = .done () s
      ↔ List.Forall₂ (fun a m => a.foldAll lookup policy rs = .ok m.value ∧ m.aggregate = a)
          accumulators s.metrics := by
  have hstart (a : Aggregate) (m : Metric) :
      rs.foldlM (fun m r => Metric.take lookup policy r m) (Metric.start a) = .ok m
        ↔ a.foldAll lookup policy rs = .ok m.value ∧ m.aggregate = a := by
    have hrun : rs.foldlM (a.fold lookup policy) (Metric.start a).value
        = a.foldAll lookup policy rs := rfl
    rw [Metric.foldlM_take]
    show (rs.foldlM (a.fold lookup policy) (Metric.start a).value).map _ = _ ↔ _
    rw [hrun]
    obtain ⟨b, v⟩ := m
    cases a.foldAll lookup policy rs with
    | error e => simp [Except.map]
    | ok u => simp [Except.map, Metric.start, and_comm, eq_comm]
  rw [consumeAll_eq_done_iff, start, List.forall₂_map_left_iff]
  simp only [hstart]

/-- A summary that has taken records holds for each accumulator what that holds on its own. -/
theorem value?_of_consumeAll
    (h : (start accumulators).consumeAll lookup policy rs = .done () s)
    (hb : ∃ c ∈ accumulators, c.sameAs b = true) :
    ∃ v, s.value? b = some v ∧ b.foldAll lookup policy rs = .ok v := by
  have hmetrics := consumeAll_start_eq_done_iff.1 h
  obtain ⟨c, hc, hsame⟩ := hb
  obtain ⟨m, hm, -, rfl⟩ := exists_mem_of_forall₂ hmetrics hc
  have hfound : (s.metrics.find? fun m => m.aggregate.sameAs b).isSome = true :=
    List.find?_isSome.2 ⟨m, hm, hsame⟩
  obtain ⟨found, hfind⟩ := Option.isSome_iff_exists.1 hfound
  obtain ⟨a, -, hvalue, haggregate⟩ :=
    exists_mem_of_forall₂ hmetrics.flip (List.mem_of_find?_eq_some hfind)
  have hsame' := List.find?_some hfind
  refine ⟨found.value, by rw [value?, hfind]; rfl, ?_⟩
  rw [← Aggregate.foldAll_congr hsame', haggregate]
  exact hvalue

/-- Records are taken exactly if each accumulator takes them on its own. -/
theorem exists_consumeAll_start_iff :
    (∃ s, (start accumulators).consumeAll lookup policy rs = .done () s)
      ↔ ∀ a ∈ accumulators, ∃ v, a.foldAll lookup policy rs = .ok v := by
  simp only [consumeAll_start_eq_done_iff]
  constructor
  · rintro ⟨s, h⟩ a ha
    obtain ⟨m, -, hm, -⟩ := exists_mem_of_forall₂ h ha
    exact ⟨m.value, hm⟩
  · intro h
    have hmetrics : ∀ a ∈ accumulators,
        ∃ m : Metric, a.foldAll lookup policy rs = .ok m.value ∧ m.aggregate = a := by
      intro a ha
      obtain ⟨v, hv⟩ := h a ha
      exact ⟨⟨a, v⟩, hv, rfl⟩
    obtain ⟨metrics, hforall⟩ := exists_forall₂_iff.2 hmetrics
    exact ⟨⟨metrics⟩, hforall⟩

/-- Records that are taken for some aggregates are taken for any of them, however often and under
whatever names they are requested. -/
theorem exists_consumeAll_of_sameAs
    (h : (start (Aggregate.accumulators requested)).consumeAll lookup policy rs = .done () s)
    (hsame : ∀ a' ∈ requested', ∃ a ∈ requested, a.sameAs a' = true) :
    ∃ s', (start (Aggregate.accumulators requested')).consumeAll lookup policy rs
      = .done () s' := by
  rw [exists_consumeAll_start_iff]
  intro b hb
  obtain ⟨a', ha', hneeded⟩ := Aggregate.exists_needed_of_mem_accumulators hb
  obtain ⟨a, ha, haa'⟩ := hsame a' ha'
  obtain ⟨c, hc, hcb⟩ := Aggregate.exists_needed_of_sameAs haa' hneeded
  obtain ⟨v, -, hv⟩ := value?_of_consumeAll h (Aggregate.exists_accumulator ha hc)
  exact ⟨v, Aggregate.foldAll_congr hcb ▸ hv⟩

/-! ## Results -/

/-- The result of an aggregate is what it makes of the records. -/
theorem evaluate_eq_result
    (h : (start (Aggregate.accumulators requested)).consumeAll lookup policy rs = .done () s)
    (ha : a ∈ requested) : a.evaluate lookup rs = .ok (s.result a) := by
  obtain ⟨v, hv, hfold⟩ :=
    value?_of_consumeAll h (Aggregate.exists_accumulator ha (Aggregate.mem_needed_self a))
  have hvalues := Aggregate.foldValues_of_foldAll hfold
  by_cases hm : a.measure = .avg
  · rw [hm] at hvalues
    have hsum : Value.sumOf (rs.map (lookup.valueOf a.field)) = .ok v :=
      Measure.foldFirst_of_foldValues (m := .avg) trivial hvalues
    rw [result, hv, Aggregate.evaluate, hm, Measure.evaluate, hsum]
    cases hfield : a.field with
    | none =>
      have hpresent : Value.present (rs.map (lookup.valueOf none)) = [] := by
        simp [Value.present, Lookup.valueOf, Value.isNull]
      rw [hfield, Value.sumOf, hpresent] at hsum
      cases hsum
      rfl
    | some field =>
      obtain ⟨n, hn, hcount⟩ := value?_of_consumeAll h
        (Aggregate.exists_accumulator ha (Aggregate.companion_mem_needed hm hfield))
      have hevaluate := Measure.evaluate_of_foldValues (m := .countField) (by simp)
        (Aggregate.foldValues_of_foldAll hcount)
      cases Except.ok.inj hevaluate
      show Except.ok (v.average _)
        = Except.ok (v.average ((s.value? (.companion field)).getD .null))
      rw [hn]
      rfl
  · have hevaluate := Measure.evaluate_of_foldValues hm hvalues
    rw [Aggregate.evaluate, hevaluate, result, hv]
    split
    · contradiction
    · rfl

/-- A name that is written has the result of the last aggregate of that name. -/
theorem get?_writeResults (s : Summary) (requested : List Aggregate) (r : Record) (name : String) :
    (s.writeResults requested r).get? name
      = (((requested.filter fun a => !a.measure.isInternal).reverse.find? fun a =>
          a.outputName == name).map s.result).or (r.get? name) := by
  rw [writeResults]
  induction requested.filter fun a => !a.measure.isInternal using List.reverseRecOn with
  | nil => rfl
  | append_singleton written a ih =>
    rw [List.foldl_append, List.foldl_cons, List.foldl_nil, List.reverse_append,
      List.reverse_singleton, List.singleton_append, List.find?_cons]
    by_cases hname : a.outputName = name
    · rw [hname, Record.get?_set_self, beq_self_eq_true]
      rfl
    · rw [Record.get?_set_of_ne _ hname, ih, beq_false_of_ne hname]

/-- The result of each requested aggregate is what its measure makes of the values of its field: it
is the same whatever else is requested, in any order, repeatedly and under any names, and any of the
aggregates can be requested without the others.  The results are written under the names of what was
requested, of two aggregates of one name the last one's, and no internal count is written. -/
theorem results_as_alone
    (hrequested : ∀ a ∈ requested, ∃ measure field name,
      Aggregate.request measure field name = .ok a)
    (h : (start (Aggregate.accumulators requested)).consumeAll lookup policy rs = .done () s) :
    (∀ a ∈ requested, a.evaluate lookup rs = .ok (s.result a)) ∧
    (∀ requested' : List Aggregate, (∀ a' ∈ requested', ∃ a ∈ requested, a.sameAs a' = true) →
      ∃ s', (start (Aggregate.accumulators requested')).consumeAll lookup policy rs
          = .done () s' ∧
        ∀ a' ∈ requested', ∀ a ∈ requested, a.sameAs a' = true → s'.result a' = s.result a) ∧
    (∀ name, (s.writeResults requested .empty).get? name
      = (requested.reverse.find? fun a => a.outputName == name).map s.result) ∧
    ∀ a ∈ requested, a.measure ≠ .countField := by
  have hmeasure : ∀ a ∈ requested, a.measure ≠ .countField := by
    intro a ha
    obtain ⟨measure, field, name, hrequest⟩ := hrequested a ha
    exact Aggregate.measure_ne_of_request hrequest
  refine ⟨fun a ha => evaluate_eq_result h ha, ?_, ?_, hmeasure⟩
  · intro requested' hsame
    obtain ⟨s', hs'⟩ := exists_consumeAll_of_sameAs h hsame
    refine ⟨s', hs', fun a' ha' a ha haa' => ?_⟩
    have hresult := evaluate_eq_result h ha
    rw [Aggregate.evaluate_congr haa', evaluate_eq_result hs' ha'] at hresult
    exact Except.ok.inj hresult
  · intro name
    have hall : (requested.filter fun a => !a.measure.isInternal) = requested := by
      rw [List.filter_eq_self]
      intro a ha
      simp [Measure.isInternal, hmeasure a ha]
    rw [get?_writeResults, hall]
    exact Option.or_none

/-- A mean, a greatest number under two names and a count. -/
def mixed : List Aggregate :=
  [⟨.avg, some "v", some "mean"⟩, ⟨.max, some "v", some "top"⟩, ⟨.count, none, some "n"⟩,
    ⟨.max, some "v", some "peak"⟩]

/-- Numbers of two kinds, a NULL and nothing. -/
def measured : List Record :=
  [.ofList [("v", .integer 4)], .ofList [("v", .null)], .ofList [("v", .long 8)], .empty]

/-- The mean of four and eight, and eight under both names, as for an aggregate on its own. -/
theorem results_as_alone_mixed : ∃ s alone,
    (start (Aggregate.accumulators mixed)).consumeAll Record.lookup .skip measured = .done () s ∧
    (start (Aggregate.accumulators [⟨.max, some "v", none⟩])).consumeAll Record.lookup .skip
      measured = .done () alone ∧
    s.result ⟨.avg, some "v", some "mean"⟩
      = .double (Numeric.doubleOfInt 12 / Numeric.doubleOfInt 2) ∧
    alone.result ⟨.max, some "v", none⟩ = s.result ⟨.max, some "v", some "top"⟩ ∧
    (s.writeResults mixed .empty).get? "peak" = some (.long 8) ∧
    (s.writeResults mixed .empty).get? "COUNT_FIELD" = none := by
  have hrequested : ∀ a ∈ mixed, ∃ measure field name,
      Aggregate.request measure field name = .ok a := by
    intro a ha
    simp only [mixed, List.mem_cons, List.not_mem_nil, or_false] at ha
    refine ⟨a.measure, a.field, a.name, ?_⟩
    rcases ha with rfl | rfl | rfl | rfl <;> rfl
  have htaken : ∃ s, (start (Aggregate.accumulators mixed)).consumeAll Record.lookup .skip measured
      = .done () s := ⟨_, rfl⟩
  obtain ⟨s, hs⟩ := htaken
  obtain ⟨hresults, hothers, hwritten, -⟩ := results_as_alone hrequested hs
  have hmean := hresults ⟨.avg, some "v", some "mean"⟩ (by simp [mixed])
  have hpeak := hresults ⟨.max, some "v", some "peak"⟩ (by simp [mixed])
  obtain ⟨alone, halone, hsame⟩ := hothers [⟨.max, some "v", none⟩] fun a' ha' =>
    ⟨⟨.max, some "v", some "top"⟩, by simp [mixed], by rw [List.mem_singleton.1 ha']; rfl⟩
  refine ⟨s, alone, hs, halone, ?_, ?_, ?_, hwritten "COUNT_FIELD"⟩
  · exact (Except.ok.inj hmean).symm
  · exact hsame _ List.mem_cons_self _ (by simp [mixed]) rfl
  · rw [hwritten]
    exact congrArg some (Except.ok.inj hpeak).symm

end Summary

end StreamQuery
