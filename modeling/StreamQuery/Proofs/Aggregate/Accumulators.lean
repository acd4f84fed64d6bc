import StreamQuery.Aggregate
set_option autoImplicit false

/-!
# The accumulators of a query

The accumulators that answer some aggregates are each there once, come from what the
aggregates need, and leave out none of that.
-/

namespace StreamQuery.Aggregate

/-! ## Sameness -/

theorem sameAs_comm (a b : Aggregate) : a.sameAs b = b.sameAs a := by
  rw [Bool.eq_iff_iff, sameAs_iff, sameAs_iff]
  exact ⟨fun h => ⟨h.1.symm, h.2.symm⟩, fun h => ⟨h.1.symm, h.2.symm⟩⟩

/-- No two accumulators of a list are the same. -/
def Distinct (as : List Aggregate) : Prop := as.Pairwise fun a b => a.sameAs b = false

/-! ## Adding an accumulator -/

variable {present : List Aggregate}

theorem addTo_cases (present : List Aggregate) (a : Aggregate) :
    (addTo present a = present ∧ ∃ b ∈ present, b.sameAs a = true) ∨
      (addTo present a = present ++ [a] ∧ ∀ b ∈ present, b.sameAs a = false) := by
  unfold addTo
  split
  · rename_i h
    obtain ⟨b, hb, hsame⟩ := List.any_eq_true.1 h
    exact .inl ⟨rfl, b, hb, sameAs_comm a b ▸ hsame⟩
  · rename_i h
    refine .inr ⟨rfl, fun b hb => ?_⟩
    rw [Bool.not_eq_true, List.any_eq_false] at h
    rw [sameAs_comm]
    exact Bool.eq_false_iff.2 (h b hb)

theorem Distinct.addTo (h : Distinct present) (a : Aggregate) : Distinct (addTo present a) := by
  rcases addTo_cases present a with ⟨heq, -⟩ | ⟨heq, hnew⟩
  · rw [heq]
    exact h
  · rw [heq, Distinct, List.pairwise_append]
    refine ⟨h, List.pairwise_singleton _ _, fun b hb c hc => ?_⟩
    rw [List.mem_singleton.1 hc]
    exact hnew b hb

theorem mem_of_mem_addTo {a b : Aggregate} (h : b ∈ addTo present a) : b ∈ present ∨ b = a := by
  rcases addTo_cases present a with ⟨heq, -⟩ | ⟨heq, -⟩
  · rw [heq] at h
    exact .inl h
  · rw [heq, List.mem_append, List.mem_singleton] at h
    exact h

theorem mem_addTo {a b : Aggregate} (h : b ∈ present) : b ∈ addTo present a := by
  rcases addTo_cases present a with ⟨heq, -⟩ | ⟨heq, -⟩
  · rw [heq]
    exact h
  · rw [heq]
    exact List.mem_append_left _ h

/-! ## Adding accumulators -/

theorem Distinct.foldl_addTo (h : Distinct present) (as : List Aggregate) :
    Distinct (as.foldl Aggregate.addTo present) := by
  induction as generalizing present with
  | nil => exact h
  | cons a rest ih => exact ih (h.addTo a)

theorem mem_of_mem_foldl_addTo {as : List Aggregate} {b : Aggregate}
    (h : b ∈ as.foldl addTo present) : b ∈ present ∨ b ∈ as := by
  induction as generalizing present with
  | nil => exact .inl h
  | cons a rest ih =>
    rcases ih h with h | h
    · rcases mem_of_mem_addTo h with h | rfl
      · exact .inl h
      · exact .inr List.mem_cons_self
    · exact .inr (List.mem_cons_of_mem _ h)

theorem mem_foldl_addTo {as : List Aggregate} {b : Aggregate} (h : b ∈ present) :
    b ∈ as.foldl addTo present := by
  induction as generalizing present with
  | nil => exact h
  | cons a rest ih => exact ih (mem_addTo h)

theorem exists_sameAs_foldl_addTo {as : List Aggregate} {a : Aggregate} (h : a ∈ as) :
    ∃ b ∈ as.foldl addTo present, b.sameAs a = true := by
  induction as generalizing present with
  | nil => cases h
  | cons c rest ih =>
    rcases List.mem_cons.1 h with rfl | h
    · show ∃ b ∈ rest.foldl addTo (addTo present a), _
      rcases addTo_cases present a with ⟨heq, b, hb, hsame⟩ | ⟨heq, -⟩
      · exact ⟨b, mem_foldl_addTo (mem_addTo hb), hsame⟩
      · refine ⟨a, mem_foldl_addTo ?_, sameAs_refl a⟩
        rw [heq]
        exact List.mem_append_right _ List.mem_cons_self
    · exact ih h

/-! ## The accumulators -/

variable {requested : List Aggregate}

theorem distinct_accumulators (requested : List Aggregate) : Distinct (accumulators requested) :=
  Distinct.foldl_addTo List.Pairwise.nil _

/-- What an aggregate needs is there. -/
theorem exists_accumulator {a b : Aggregate} (ha : a ∈ requested) (hb : b ∈ a.needed) :
    ∃ c ∈ accumulators requested, c.sameAs b = true :=
  exists_sameAs_foldl_addTo (List.mem_flatMap.2 ⟨a, ha, hb⟩)

/-- An accumulator is needed by an aggregate. -/
theorem exists_needed_of_mem_accumulators {b : Aggregate} (h : b ∈ accumulators requested) :
    ∃ a ∈ requested, b ∈ a.needed := by
  rcases mem_of_mem_foldl_addTo h with h | h
  · cases h
  · exact List.mem_flatMap.1 h

/-- An accumulator reads a field of an aggregate. -/
theorem field_of_mem_accumulators {b : Aggregate} (h : b ∈ accumulators requested) :
    ∃ a ∈ requested, b.field = a.field := by
  obtain ⟨a, ha, hb⟩ := exists_needed_of_mem_accumulators h
  refine ⟨a, ha, ?_⟩
  unfold needed at hb
  split at hb
  · rename_i field _ hfield
    simp only [List.mem_cons, List.not_mem_nil, or_false] at hb
    rcases hb with rfl | rfl
    · rfl
    · exact hfield.symm
  · rw [List.mem_singleton.1 hb]

theorem mem_needed_self (a : Aggregate) : a ∈ a.needed := by
  unfold needed
  split <;> simp

theorem companion_mem_needed {a : Aggregate} {field : String} (hmeasure : a.measure = .avg)
    (hfield : a.field = some field) : companion field ∈ a.needed := by
  simp [needed, hmeasure, hfield]

/-- Aggregates of the same measure and field need the same. -/
theorem exists_needed_of_sameAs {a a' b : Aggregate} (hsame : a.sameAs a' = true)
    (hb : b ∈ a'.needed) : ∃ c ∈ a.needed, c.sameAs b = true := by
  obtain ⟨hmeasure, hfield⟩ := sameAs_iff.1 hsame
  unfold needed at hb
  split at hb
  · rename_i field havg hsome
    simp only [List.mem_cons, List.not_mem_nil, or_false] at hb
    rcases hb with rfl | rfl
    · exact ⟨a, mem_needed_self a, hsame⟩
    · exact ⟨companion field, companion_mem_needed (hmeasure.trans havg) (hfield.trans hsome),
        sameAs_refl _⟩
  · rw [List.mem_singleton.1 hb]
    exact ⟨a, mem_needed_self a, hsame⟩

end StreamQuery.Aggregate
