import StreamQuery.Proofs.Aggregate.Refusals
import StreamQuery.Proofs.Aggregate.Running
set_option autoImplicit false

/-!
# Running values that can be regrouped

A running value may be formed record by record, or from the running values of several parts one
after another.  That makes no difference among values that a measure reduces associatively: whatever
is counted, LONGs that are summed, and numbers of which a measure takes the least or greatest by one
and the same order.  Sums of floating-point numbers are not among them, and neither is the order of
numbers of several kinds, which are compared after rounding.
-/

namespace StreamQuery

/-! ## Values under a measure -/

namespace Measure

/-- The first value with the second one folded in; it stays as it is where that fails. -/
def reduced (m : Measure) (v w : Value) : Value :=
  match m.reduce v w with
  | .ok u => u
  | .error _ => v

/-- Values that a measure reduces to one of them, in any grouping. -/
structure Regroups (m : Measure) (values : Value → Prop) : Prop where
  reduce : ∀ {v w}, values v → values w → m.reduce v w = .ok (m.reduced v w)
  closed : ∀ {v w}, values v → values w → values (m.reduced v w)
  assoc : ∀ {u v w}, values u → values v → values w →
    m.reduced (m.reduced u v) w = m.reduced u (m.reduced v w)

variable {m : Measure} {values : Value → Prop}

theorem reduced_of_ok {v w u : Value} (h : m.reduce v w = .ok u) : m.reduced v w = u := by
  simp only [reduced, h]

/-- The values of all parts fold to one of them. -/
theorem Regroups.foldl (h : m.Regroups values) {v : Value} {vs : List Value} (hv : values v)
    (hvs : ∀ w ∈ vs, values w) : values (vs.foldl m.reduced v) := by
  induction vs generalizing v with
  | nil => exact hv
  | cons w ws ih =>
    exact ih (h.closed hv (hvs w List.mem_cons_self)) fun w hw => hvs w (List.mem_cons_of_mem _ hw)

/-- A value in front may be folded in at the end. -/
theorem Regroups.foldl_assoc (h : m.Regroups values) {u v : Value} {vs : List Value}
    (hu : values u) (hv : values v) (hvs : ∀ w ∈ vs, values w) :
    m.reduced u (vs.foldl m.reduced v) = vs.foldl m.reduced (m.reduced u v) := by
  induction vs generalizing v with
  | nil => rfl
  | cons w ws ih =>
    have hw : values w := hvs w List.mem_cons_self
    rw [List.foldl_cons, List.foldl_cons, h.assoc hu hv hw]
    exact ih (h.closed hv hw) fun w hw => hvs w (List.mem_cons_of_mem _ hw)

/-- The running values of two parts reduce to that of both. -/
theorem Regroups.foldl_append_cons (h : m.Regroups values) {v w : Value} {vs ws : List Value}
    (hall : ∀ u ∈ v :: vs ++ w :: ws, values u) :
    m.reduce (vs.foldl m.reduced v) (ws.foldl m.reduced w)
      = .ok ((vs ++ w :: ws).foldl m.reduced v) := by
  have hv : values v := hall v (by simp)
  have hw : values w := hall w (by simp)
  have hvs : ∀ u ∈ vs, values u := fun u hu => hall u (by simp [hu])
  have hws : ∀ u ∈ ws, values u := fun u hu => hall u (by simp [hu])
  have hleft := h.foldl hv hvs
  rw [h.reduce hleft (h.foldl hw hws), h.foldl_assoc hleft hw hws, List.foldl_append,
    List.foldl_cons]

/-- The running values of LONGs can be regrouped. -/
theorem regroups_running (m : Measure) : m.Regroups fun v => ∃ ns, v = m.running ns where
  reduce := by
    rintro _ _ ⟨ns, rfl⟩ ⟨ns', rfl⟩
    rw [reduced_of_ok (m.reduce_running ns ns'), m.reduce_running]
  closed := by
    rintro _ _ ⟨ns, rfl⟩ ⟨ns', rfl⟩
    exact ⟨ns ++ ns', reduced_of_ok (m.reduce_running ns ns')⟩
  assoc := by
    rintro _ _ _ ⟨ns₁, rfl⟩ ⟨ns₂, rfl⟩ ⟨ns₃, rfl⟩
    simp only [reduced_of_ok (m.reduce_running _ _), List.append_assoc]

/-! ## Extremes -/

theorem reduced_null_left (m : Measure) (v : Value) : m.reduced .null v = v := by
  cases v <;> rfl

theorem reduced_null_right (m : Measure) (v : Value) : m.reduced v .null = v := rfl

/-- NULL, and values of which a measure keeps the first one with the least key. -/
theorem regroups_of_least (key : Value → Int) (h : ∀ {v w}, values v → values w →
      m.reduce v w = .ok (if key w < key v then w else v)) :
    m.Regroups fun v => v = .null ∨ values v where
  reduce := by
    rintro v w (rfl | hv) (rfl | hw)
    · rfl
    · rw [reduced_null_left]
      cases w <;> rfl
    · rfl
    · rw [reduced_of_ok (h hv hw), h hv hw]
  closed := by
    rintro v w (rfl | hv) (rfl | hw)
    · exact .inl rfl
    · rw [reduced_null_left]
      exact .inr hw
    · exact .inr hv
    · rw [reduced_of_ok (h hv hw)]
      split
      · exact .inr hw
      · exact .inr hv
  assoc := by
    rintro u v w (rfl | hu) hv hw
    · rw [reduced_null_left, reduced_null_left]
    rcases hv with rfl | hv
    · rw [reduced_null_right, reduced_null_left]
    rcases hw with rfl | hw
    · rw [reduced_null_right, reduced_null_right]
    rw [reduced_of_ok (h hu hv), reduced_of_ok (h hv hw)]
    by_cases huv : key v < key u <;> by_cases hvw : key w < key v
    · rw [if_pos huv, if_pos hvw, reduced_of_ok (h hv hw), reduced_of_ok (h hu hw), if_pos hvw,
        if_pos (by omega)]
    · rw [if_pos huv, if_neg hvw, reduced_of_ok (h hv hw), reduced_of_ok (h hu hv), if_neg hvw,
        if_pos huv]
    · rw [if_neg huv, if_pos hvw, reduced_of_ok (h hu hw)]
    · rw [if_neg huv, if_neg hvw, reduced_of_ok (h hu hw), reduced_of_ok (h hu hv), if_neg huv,
        if_neg (by omega)]

end Measure

/-- Values that are compared by a key of each of them. -/
def Value.OrderedBy (key : Value → Int) (values : Value → Prop) : Prop :=
  ∀ v w, values v → values w → v.compare w = .ok (Ord.compare (key v) (key w))

section Extremes

variable {key : Value → Int} {values : Value → Prop}

/-- Values that can be compared are not NULL. -/
theorem Value.OrderedBy.isNull_eq_false (h : Value.OrderedBy key values) {v : Value}
    (hv : values v) : v.isNull = false := by
  cases v with
  | null => cases h _ _ hv hv
  | _ => rfl

theorem Measure.regroups_min (h : Value.OrderedBy key values) :
    Measure.min.Regroups fun v => v = .null ∨ values v := by
  apply Measure.regroups_of_least key
  intro v w hv hw
  simp only [Measure.reduce, h.isNull_eq_false hv, h.isNull_eq_false hw, h _ _ hw hv, Except.map,
    Int.compare_eq_lt]
  rfl

theorem Measure.regroups_max (h : Value.OrderedBy key values) :
    Measure.max.Regroups fun v => v = .null ∨ values v := by
  apply Measure.regroups_of_least fun v => -key v
  intro v w hv hw
  have hflip : (-key w < -key v) = (key v < key w) := propext Int.neg_lt_neg_iff
  simp only [Measure.reduce, h.isNull_eq_false hv, h.isNull_eq_false hw, h _ _ hw hv, Except.map,
    Int.compare_eq_gt, hflip]
  rfl

end Extremes

/-! ## Accumulators over records -/

namespace Aggregate

variable {lookup : Lookup} {policy : NullPolicy} {r : Record} {a : Aggregate} {v : Value}

/-- The field of an accumulator holds a number in a record. -/
def Holds (lookup : Lookup) (a : Aggregate) (r : Record) (v : Value) : Prop :=
  v.isNumeric = true ∧ ∃ field, a.field = some field ∧ lookup field r = .ok v

/-- What an accumulator takes from some records can be regrouped: it counts, or it sums whole
numbers, or it takes the least or the greatest of numbers that are compared by one key. -/
def Regroupable (lookup : Lookup) (a : Aggregate) (rs : List Record) : Prop :=
  match a.measure with
  | .count | .countField => True
  | .sum | .avg => ∀ r ∈ rs, ∀ v, a.Holds lookup r v → v.kind.isIntegral = true
  | .min | .max => ∃ key, Value.OrderedBy key fun v => ∃ r ∈ rs, a.Holds lookup r v

/-- A value of a field that is not NULL was found in the record. -/
theorem exists_lookup_of_fieldValue (h : Metric.fieldValue lookup policy r a = .ok v)
    (hv : v ≠ .null) : ∃ field, a.field = some field ∧ lookup field r = .ok v := by
  unfold Metric.fieldValue at h
  cases hfield : a.field with
  | none =>
    rw [hfield] at h
    cases h
    exact absurd rfl hv
  | some field =>
    refine ⟨field, rfl, ?_⟩
    rw [hfield] at h
    cases hl : lookup field r with
    | error e =>
      simp only [hl, bind, Except.bind] at h
      by_cases he : e.isLookup = true
      · simp only [he, if_true] at h
        split at h
        · cases h
        · cases h
          exact absurd rfl hv
      · simp only [he] at h
        cases h
    | ok w =>
      simp only [hl, bind, Except.bind] at h
      split at h
      · cases h
      · cases h
        rfl

/-- What an accumulator that computes takes from a record: nothing, or the contribution of a number
that its field holds. -/
theorem alone_cases (hcomputes : a.measure.Computes) (h : a.alone lookup policy r = .ok v) :
    v = a.measure.initial ∨
      ∃ w, a.Holds lookup r w ∧ a.measure.contribution w = .ok (some v) := by
  obtain ⟨w, c, hw, hcontribution, rfl⟩ := fieldValue_of_alone h
  cases c with
  | none => exact .inl rfl
  | some c =>
    refine .inr ⟨w, ?_, hcontribution⟩
    have hnull : w ≠ .null := by
      rintro rfl
      unfold Measure.Computes at hcomputes
      cases hm : a.measure with
      | count | countField =>
        rw [hm] at hcomputes
        exact hcomputes
      | _ =>
        rw [hm] at hcontribution
        cases hcontribution
    refine ⟨?_, exists_lookup_of_fieldValue hw hnull⟩
    cases hnumeric : w.isNumeric with
    | true => rfl
    | false =>
      obtain ⟨e, he⟩ := (Measure.contribution_error_iff hnull).2 ⟨hcomputes, hnumeric⟩
      cases hcontribution.symm.trans he

/-- Counting takes ones and nothing. -/
theorem alone_of_counts (hcounts : ¬a.measure.Computes) (h : a.alone lookup policy r = .ok v) :
    ∃ ns, v = a.measure.running ns := by
  obtain ⟨w, c, -, hcontribution, rfl⟩ := fieldValue_of_alone h
  cases c with
  | none => exact ⟨[], rfl⟩
  | some c =>
    refine ⟨[1], ?_⟩
    cases hm : a.measure with
    | count =>
      rw [hm] at hcontribution
      cases hcontribution
      rfl
    | countField =>
      rw [hm] at hcontribution
      cases w <;> cases hcontribution <;> rfl
    | sum | min | max | avg =>
      rw [hm] at hcounts
      exact absurd trivial hcounts

/-- Summing whole numbers takes such numbers, as LONGs, and nothing. -/
theorem alone_of_sums (hsums : a.measure = .sum ∨ a.measure = .avg)
    (hintegral : ∀ w, a.Holds lookup r w → w.kind.isIntegral = true)
    (h : a.alone lookup policy r = .ok v) : ∃ ns, v = a.measure.running ns := by
  have hcomputes : a.measure.Computes := by
    rcases hsums with hm | hm <;> rw [hm] <;> trivial
  rcases alone_cases hcomputes h with rfl | ⟨w, hholds, hw⟩
  · exact ⟨[], rfl⟩
  · have hkind := hintegral w hholds
    have hwide : v = w.widenForSum := by
      rcases hsums with hm | hm <;> rw [hm] at hw <;> cases w <;> cases hw <;> rfl
    rw [hwide]
    cases w with
    | integer n => exact ⟨[n.toInt64], rfl⟩
    | long n => exact ⟨[n], rfl⟩
    | _ => cases hkind

/-- The least and the greatest number are taken from what the field holds. -/
theorem alone_of_extremes (hextreme : a.measure = .min ∨ a.measure = .max)
    (h : a.alone lookup policy r = .ok v) : v = .null ∨ a.Holds lookup r v := by
  have hcomputes : a.measure.Computes := by
    rcases hextreme with hm | hm <;> rw [hm] <;> trivial
  rcases alone_cases hcomputes h with rfl | ⟨w, hholds, hw⟩
  · left
    rcases hextreme with hm | hm <;> rw [hm] <;> rfl
  · have hsame : w = v := by
      rcases hextreme with hm | hm <;> rw [hm] at hw <;> cases w <;> cases hw <;> rfl
    exact .inr (hsame ▸ hholds)

/-- What an accumulator takes from records that can be regrouped, it reduces in any grouping. -/
theorem Regroupable.regroups {rs : List Record} (h : a.Regroupable lookup rs)
    (policy : NullPolicy) :
    ∃ values, a.measure.Regroups values ∧
      ∀ r ∈ rs, ∀ v, a.alone lookup policy r = .ok v → values v := by
  obtain ⟨measure, field, name⟩ := a
  cases measure with
  | count | countField =>
    exact ⟨_, Measure.regroups_running _, fun r _ v hv => alone_of_counts id hv⟩
  | sum =>
    exact ⟨_, Measure.regroups_running _, fun r hr v hv => alone_of_sums (.inl rfl) (h r hr) hv⟩
  | avg =>
    exact ⟨_, Measure.regroups_running _, fun r hr v hv => alone_of_sums (.inr rfl) (h r hr) hv⟩
  | min =>
    obtain ⟨key, hordered⟩ := h
    refine ⟨_, Measure.regroups_min hordered, fun r hr v hv => ?_⟩
    have hfound := alone_of_extremes (.inl rfl) hv
    exact hfound.imp_right fun hholds => ⟨r, hr, hholds⟩
  | max =>
    obtain ⟨key, hordered⟩ := h
    refine ⟨_, Measure.regroups_max hordered, fun r hr v hv => ?_⟩
    have hfound := alone_of_extremes (.inr rfl) hv
    exact hfound.imp_right fun hholds => ⟨r, hr, hholds⟩

end Aggregate

end StreamQuery
