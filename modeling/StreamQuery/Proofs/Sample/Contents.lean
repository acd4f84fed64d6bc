import StreamQuery.Proofs.Sample.Capacity
set_option autoImplicit false

/-!
# What stays true of the entries of a sample

A property of the entries of a sample stays true as long as what comes in has it and what is left
of a present value has it too, also where a value refuses another one and a merge stops half-way.
One such property is that all hashes lie below the bound.
-/

namespace StreamQuery

variable {α : Type} {P : UInt64 → α → Prop}

/-! ## Entries of tables -/

/-- All entries of a table have a property. -/
def Keyed.All (P : UInt64 → α → Prop) (t : Keyed UInt64 α) : Prop :=
  ∀ h a, t.get? h = some a → P h a

namespace Keyed.All

variable {t : Keyed UInt64 α} {h : UInt64} {a : α}

theorem of_entries (ht : ∀ e ∈ t.entries, P e.1 e.2) : t.All P :=
  fun _ _ hget => ht _ (get?_eq_some_iff.1 hget)

theorem mem (ht : t.All P) {e : UInt64 × α} (he : e ∈ t.entries) : P e.1 e.2 :=
  ht e.1 e.2 (get?_eq_some_iff.2 he)

theorem empty : (Keyed.empty : Keyed UInt64 α).All P := fun _ _ hget => nomatch hget

theorem insert (ht : t.All P) (ha : P h a) : (t.insert h a).All P := by
  intro h' a' hget
  rw [get?_insert] at hget
  split at hget
  · rename_i hc
    cases hget
    exact Std.LawfulEqCmp.eq_of_compare hc ▸ ha
  · exact ht h' a' hget

theorem ofList {entries : List (UInt64 × α)} (hall : ∀ e ∈ entries, P e.1 e.2) :
    (Keyed.ofList entries).All P := by
  have hfold (t : Keyed UInt64 α) (ht : t.All P) :
      (entries.foldl (fun t e => t.insert e.1 e.2) t).All P := by
    induction entries generalizing t with
    | nil => exact ht
    | cons e rest ih =>
      exact ih (fun e he => hall e (List.mem_cons_of_mem _ he)) _
        (ht.insert (hall e List.mem_cons_self))
  exact hfold _ empty

theorem filter (ht : t.All P) (p : UInt64 × α → Bool) : (t.filter p).All P :=
  of_entries fun _ he => ht.mem (List.mem_filter.1 he).1

theorem take (ht : t.All P) (n : Nat) : (t.take n).All P :=
  of_entries fun _ he => ht.mem (List.mem_of_mem_take he)

variable [Combine α]

/-- Absorbing a value keeps what holds of it and of what it leaves of a present value. -/
theorem absorb (ht : t.All P) (ha : P h a)
    (hcombine : ∀ p, P h p → P h (Combine.combine p a).2) :
    (HashSample.absorb t h a).2.All P := by
  unfold HashSample.absorb
  split
  · rename_i p hget
    exact ht.insert (hcombine p (ht h p hget))
  · exact ht.insert ha

/-- The same for values one after another, up to one that is refused. -/
theorem absorbAll {entries : List (UInt64 × α)} (ht : t.All P) (hnew : ∀ e ∈ entries, P e.1 e.2)
    (hcombine : ∀ e ∈ entries, ∀ p, P e.1 p → P e.1 (Combine.combine p e.2).2) :
    (HashSample.absorbAll t entries).2.All P := by
  induction entries generalizing t with
  | nil => exact ht
  | cons e rest ih =>
    have hfirst := ht.absorb (hnew e List.mem_cons_self) (hcombine e List.mem_cons_self)
    exact Transition.andThen_keeps hfirst fun _ _ ht =>
      ih ht (fun e he => hnew e (List.mem_cons_of_mem _ he))
        fun e he => hcombine e (List.mem_cons_of_mem _ he)

/-- Values that take each other are all absorbed. -/
theorem absorbAll_done {entries : List (UInt64 × α)} (ht : t.All P)
    (hnew : ∀ e ∈ entries, P e.1 e.2)
    (hcombine : ∀ h p a, P h p → P h a →
      ∃ both, Combine.combine p a = .done () both ∧ P h both) :
    ∃ u, HashSample.absorbAll t entries = .done () u ∧ u.All P := by
  induction entries generalizing t with
  | nil => exact ⟨t, rfl, ht⟩
  | cons e rest ih =>
    have ha := hnew e List.mem_cons_self
    have hfirst : ∃ t', HashSample.absorb t e.1 e.2 = .done () t' ∧ t'.All P := by
      unfold HashSample.absorb
      split
      · rename_i p hget
        obtain ⟨both, hdone, hboth⟩ := hcombine e.1 p e.2 (ht e.1 p hget) ha
        rw [hdone]
        exact ⟨_, rfl, ht.insert hboth⟩
      · exact ⟨_, rfl, ht.insert ha⟩
    obtain ⟨t', hdone, ht'⟩ := hfirst
    obtain ⟨u, hu, hall⟩ := ih ht' fun e he => hnew e (List.mem_cons_of_mem _ he)
    refine ⟨u, ?_, hall⟩
    show (HashSample.absorb t e.1 e.2).andThen _ = _
    rw [hdone]
    exact hu

end Keyed.All

namespace HashSample

variable {s t : HashSample α} {h : UInt64} {a : α} {capacity : Nat}

/-! ## Trimming -/

/-- What a sample holds fits its capacity. -/
def Fits (s : HashSample α) : Prop := s.retained ≤ s.capacity

theorem trim_of_fits (hs : s.Fits) : s.trim = s := by
  have hnone : s.entries.entries[s.capacity]? = none := List.getElem?_eq_none hs
  simp only [trim, hnone]

theorem fits_trim (s : HashSample α) : s.trim.Fits := by
  unfold trim
  split
  · rename_i hnone
    exact List.getElem?_eq_none_iff.1 hnone
  · show (s.entries.take s.capacity).size ≤ s.capacity
    simp [Keyed.size, Keyed.take]

theorem all_trim (hs : s.entries.All P) : s.trim.entries.All P := by
  unfold trim
  split
  · exact hs
  · exact hs.take _

/-- The hashes that a sample holds lie below its bound. -/
def Bounded (s : HashSample α) : Prop := s.entries.All fun h _ => h < s.bound

theorem Bounded.trim (hs : s.Bounded) : s.trim.Bounded := by
  unfold HashSample.trim
  split
  · exact hs
  · rename_i h a hsome
    refine Keyed.All.of_entries fun e he => ?_
    exact Std.compare_eq_lt.1 ((Keyed.mem_take_iff hsome e).1 he).2

/-- A sample as it is at any time in a sketch of a capacity. -/
structure Formed (capacity : Nat) (s : HashSample α) : Prop where
  capacity_eq : s.capacity = max capacity 1
  bounded : s.Bounded

theorem formed_new (capacity : Nat) : (new capacity : HashSample α).Formed capacity :=
  ⟨rfl, Keyed.All.empty⟩

theorem Formed.clear (hs : s.Formed capacity) : s.clear.Formed capacity :=
  ⟨hs.capacity_eq, Keyed.All.empty⟩

/-- A sample of a capacity that is cleared is a new one. -/
theorem Formed.clear_eq (hs : s.Formed capacity) : s.clear = new capacity := by
  simp only [HashSample.clear, new, hs.capacity_eq]

/-! ## Adding and merging -/

variable [Combine α]

/-- What an added value and what it leaves of a present one have, all values have. -/
theorem all_add (hs : s.entries.All P) (ha : P h a)
    (hcombine : ∀ p, P h p → P h (Combine.combine p a).2) : (s.add h a).2.entries.All P := by
  unfold HashSample.add
  split
  · exact hs
  · exact Transition.andThen_keeps (Q := fun s : HashSample α => s.entries.All P)
      (hs.absorb ha hcombine) fun _ _ hs => all_trim hs

/-- Adding fails only where a present value refuses the new one. -/
theorem add_done (hcombine : ∀ p, s.get? h = some p → (Combine.combine p a).1 = .ok ()) :
    ∃ kept s', s.add h a = .done kept s' := by
  unfold HashSample.add
  split
  · exact ⟨false, s, rfl⟩
  · unfold absorb
    split
    · rename_i p hget
      have hok := hcombine p hget
      rcases hresult : Combine.combine p a with ⟨⟨error⟩ | ⟨⟨⟩⟩, p'⟩
      · rw [hresult] at hok
        cases hok
      · exact ⟨_, _, rfl⟩
    · exact ⟨_, _, rfl⟩

theorem fits_of_add {kept : Bool} (hs : s.Fits) (hadd : s.add h a = .done kept t) : t.Fits := by
  unfold HashSample.add at hadd
  split at hadd
  · cases hadd
    exact hs
  · rcases hresult : absorb s.entries h a with ⟨⟨error⟩ | ⟨⟨⟩⟩, entries⟩
    · rw [hresult] at hadd
      cases hadd
    · rw [hresult] at hadd
      cases hadd
      exact fits_trim _

@[simp] theorem capacity_add (s : HashSample α) (h : UInt64) (a : α) :
    (s.add h a).2.capacity = s.capacity := by
  unfold HashSample.add
  split
  · rfl
  · exact Transition.andThen_keeps (Q := fun t : HashSample α => t.capacity = s.capacity) rfl
      fun _ t ht => (capacity_trim t).trans ht

@[simp] theorem capacity_merge (s t : HashSample α) : (s.merge t).2.capacity = s.capacity := by
  exact Transition.andThen_keeps (Q := fun t : HashSample α => t.capacity = s.capacity) rfl
    fun _ t ht => (capacity_trim t).trans ht

/-- The hashes that come in by an addition lie below the bound, as those that were there do. -/
theorem Bounded.add (hs : s.Bounded) (h : UInt64) (a : α) : (s.add h a).2.Bounded := by
  unfold HashSample.add
  split
  · exact hs
  · rename_i hlt
    have habsorb : (absorb s.entries h a).2.All fun h _ => h < s.bound :=
      Keyed.All.absorb hs (UInt64.not_le.1 hlt) fun _ hp => hp
    exact Transition.andThen_keeps (Q := Bounded) habsorb fun _ _ hs => hs.trim

/-- What a merge puts together lies below the smaller of the bounds. -/
theorem all_absorbAll_below (s t : HashSample α) :
    (absorbAll (s.entries.filter fun e => decide (e.1 < min s.bound t.bound))
      (t.entries.filter fun e => decide (e.1 < min s.bound t.bound)).entries).2.All
        fun h _ => h < min s.bound t.bound := by
  have hbelow (u : Keyed UInt64 α) :
      ∀ e ∈ (u.filter fun e => decide (e.1 < min s.bound t.bound)).entries,
        e.1 < min s.bound t.bound :=
    fun e he => of_decide_eq_true (List.mem_filter.1 he).2
  exact Keyed.All.absorbAll (.of_entries (hbelow _)) (hbelow _) fun _ _ _ hp => hp

/-- After a merge all hashes lie below the bound, whatever was merged, and whether it failed. -/
theorem bounded_merge (s t : HashSample α) : (s.merge t).2.Bounded :=
  Transition.andThen_keeps (Q := Bounded) (all_absorbAll_below s t) fun _ _ hs => hs.trim

/-- Samples whose values take each other merge. -/
theorem merge_done_of_all (hs : s.entries.All P) (ht : t.entries.All P)
    (hcombine : ∀ h p a, P h p → P h a →
      ∃ both, Combine.combine p a = .done () both ∧ P h both) :
    ∃ u, s.merge t = .done () u ∧ u.entries.All P ∧ u.Fits := by
  have hbelow := ht.filter fun e => decide (e.1 < min s.bound t.bound)
  obtain ⟨entries, hdone, hall⟩ := Keyed.All.absorbAll_done
    (hs.filter fun e => decide (e.1 < min s.bound t.bound)) (fun _ he => hbelow.mem he) hcombine
  refine ⟨HashSample.trim ⟨s.capacity, min s.bound t.bound, entries⟩, ?_, all_trim hall,
    fits_trim _⟩
  show ((absorbAll _ _).within _).andThen _ = _
  rw [hdone]
  rfl

theorem Formed.merge (hs : s.Formed capacity) (t : HashSample α) :
    (s.merge t).2.Formed capacity :=
  ⟨(capacity_merge s t).trans hs.capacity_eq, bounded_merge s t⟩

/-! ## Merging into an empty sample -/

/-- Entries that come into an empty table one after another make the table that they are from. -/
theorem absorbAll_empty (t : Keyed UInt64 α) : absorbAll .empty t.entries = .done () t := by
  obtain ⟨t', hdone, hget⟩ := absorbAll_done (f := t.get?) t.ascending
    (t := (Keyed.empty : Keyed UInt64 α))
    fun e he => .inl ⟨rfl, Keyed.get?_eq_some_iff.2 he⟩
  have heq : t' = t := by
    apply Keyed.ext_get?
    intro h
    rw [hget h]
    split
    · rfl
    · rename_i hmem
      have hnone : t.get? h = none := by
        rw [← Option.not_isSome_iff_eq_none, ← Keyed.mem_keys_iff]
        exact hmem
      rw [hnone, Keyed.get?_empty]
  rw [hdone, heq]

/-- Merged into an empty sample, a sample of the same capacity comes out trimmed. -/
theorem merge_new (ht : t.Formed capacity) : (new capacity).merge t = .done () t.trim := by
  have hfilter : t.entries.filter (fun e => decide (e.1 < min noBound t.bound)) = t.entries := by
    apply Keyed.ext
    refine List.filter_eq_self.2 fun e he => ?_
    rw [noBound_min]
    exact decide_eq_true (Keyed.All.mem ht.bounded he)
  have hmerge : (new capacity).merge t
      = ((absorbAll .empty (t.entries.filter fun e =>
          decide (e.1 < min noBound t.bound)).entries).within fun entries =>
            (⟨max capacity 1, min noBound t.bound, entries⟩ : HashSample α)).andThen
          fun _ s => .done () s.trim := rfl
  rw [hmerge, hfilter, absorbAll_empty, noBound_min, ← ht.capacity_eq]
  rfl

end HashSample

end StreamQuery
