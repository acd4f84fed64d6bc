import StreamQuery.Proofs.Sample.Family
import StreamQuery.Proofs.Sample.Histories
set_option autoImplicit false

/-!
# Samples with room for every hash

A sample to which no more hashes are offered than there is room for never drops one, and counts them
exactly.  There is one hash that it does not take even so: the largest word, which stands for no
bound.  An offer under that hash is answered like one that lies beyond the bound, although there is
none (`exact_until_full`, `noBound_not_kept`).
-/

namespace StreamQuery.HashSample

variable {α : Type} [Combine α]

/-! ## Offers one after another -/

/-- The answers to values that are offered one after another, and the sample that is left.  A value
that is refused does not stop the others. -/
def addAll (s : HashSample α) : List (UInt64 × α) → List (Outcome Bool) × HashSample α
  | [] => ([], s)
  | (hash, a) :: rest =>
    let first := s.add hash a
    let later := addAll first.2 rest
    (first.1 :: later.1, later.2)

/-- An offer is answered by whether its hash is one that can be kept, or else by the error with
which a value refuses that of the offer. -/
def Answers (offer : UInt64 × α) (answer : Outcome Bool) : Prop :=
  answer = .ok (offer.1 != noBound) ∨
    ∃ p error, (Combine.combine p offer.2).1 = .error error ∧ answer = .error error

/-! ## Samples that have dropped nothing -/

/-- A sample that has no bound and holds all of some hashes that can be kept. -/
structure HoldsAll (hashes : Finset UInt64) (s : HashSample α) : Prop where
  bound_eq : s.bound = noBound
  hashes_eq : hashesOf s.entries = hashes.erase noBound

variable {hashes : Finset UInt64} {s : HashSample α} {hash : UInt64} {a : α}

omit [Combine α] in
theorem holdsAll_new (capacity : Nat) : HoldsAll ∅ (new capacity : HashSample α) :=
  ⟨rfl, rfl⟩

omit [Combine α] in
theorem HoldsAll.retained (h : HoldsAll hashes s) : s.retained = (hashes.erase noBound).card := by
  rw [HashSample.retained, ← card_hashesOf, h.hashes_eq]

omit [Combine α] in
theorem HoldsAll.isEstimating (h : HoldsAll hashes s) : s.isEstimating = false := by
  rw [HashSample.isEstimating, h.bound_eq]
  exact bne_self_eq_false _

/-- A value that is refused is refused with the error of the value that is there. -/
theorem exists_error_of_absorb {t u : Keyed UInt64 α} {error : QueryError}
    (h : absorb t hash a = .fail error u) : ∃ p, (Combine.combine p a).1 = .error error := by
  unfold absorb at h
  split at h
  · rename_i p _
    exact ⟨p, congrArg Prod.fst h⟩
  · cases h

/-- Offering the largest word leaves all as it was. -/
theorem HoldsAll.add_noBound (h : HoldsAll hashes s) (a : α) : s.add noBound a = .done false s := by
  unfold HashSample.add
  exact if_pos (h.bound_eq ▸ UInt64.le_refl _)

/-- With room for its hash an offer is taken, or refused by the value that is there. -/
theorem HoldsAll.add (h : HoldsAll hashes s) (hash : UInt64) (a : α)
    (hroom : (insert hash hashes).card ≤ s.capacity) :
    HoldsAll (insert hash hashes) (s.add hash a).2 ∧ Answers (hash, a) (s.add hash a).1 := by
  by_cases hmax : hash = noBound
  · subst hmax
    have hsame : (insert noBound hashes).erase noBound = hashes.erase noBound :=
      Finset.erase_insert_eq_erase hashes noBound
    rw [h.add_noBound a]
    exact ⟨⟨h.bound_eq, hsame ▸ h.hashes_eq⟩, .inl (congrArg Except.ok (bne_self_eq_false _).symm)⟩
  · have hkeeps : (hash != noBound) = true := bne_iff_ne.2 hmax
    have hbelow : ¬s.bound ≤ hash := by
      rw [h.bound_eq]
      exact fun hle => hmax (UInt64.le_antisymm (le_noBound hash) hle)
    have hinsert : (insert hash hashes).erase noBound = insert hash (hashes.erase noBound) :=
      Finset.erase_insert_of_ne hmax
    have hadd : s.add hash a = ((absorb s.entries hash a).within fun entries =>
        { s with entries }).andThen fun _ s => .done (s.trim.entries.contains hash) s.trim := by
      unfold HashSample.add
      exact if_neg hbelow
    rcases absorb_step s.entries (hash, a) with
      ⟨⟨p, _, hpresent, _⟩, error, u, habsorb, hhashes⟩ | ⟨-, u, habsorb, hhashes, -⟩
    · -- the hash is there already, as the value under it refuses the new one
      obtain ⟨p', hrefuses⟩ := exists_error_of_absorb habsorb
      have hmem : hash ∈ hashes.erase noBound := by
        rw [← h.hashes_eq, mem_hashesOf, hpresent]
        rfl
      rw [hadd, habsorb]
      refine ⟨⟨h.bound_eq, ?_⟩, .inr ⟨p', error, hrefuses, rfl⟩⟩
      rw [hinsert, Finset.insert_eq_of_mem hmem, ← h.hashes_eq, ← hhashes]
      rfl
    · have hall : hashesOf u = (insert hash hashes).erase noBound := by
        rw [hinsert, ← h.hashes_eq, hhashes]
      have hfits : ({ s with entries := u } : HashSample α).Fits := by
        show u.size ≤ s.capacity
        rw [← card_hashesOf, hall]
        exact (Finset.card_erase_le).trans hroom
      have hcontains : u.contains hash = true := by
        have hmem : hash ∈ hashesOf u := hhashes ▸ Finset.mem_insert_self _ _
        exact mem_hashesOf.1 hmem
      rw [hadd, habsorb]
      show HoldsAll _ (HashSample.trim { s with entries := u }) ∧
        Answers (hash, a) (.ok ((HashSample.trim { s with entries := u }).entries.contains hash))
      rw [trim_of_fits hfits, hcontains]
      exact ⟨⟨h.bound_eq, hall⟩, .inl (congrArg Except.ok hkeeps.symm)⟩

/-- With room for the hashes of all offers none is dropped. -/
theorem HoldsAll.addAll (h : HoldsAll hashes s) {offers : List (UInt64 × α)}
    (hroom : (hashes ∪ receivedHashes offers).card ≤ s.capacity) :
    HoldsAll (hashes ∪ receivedHashes offers) (s.addAll offers).2 ∧
      List.Forall₂ Answers offers (s.addAll offers).1 := by
  induction offers generalizing hashes s with
  | nil =>
    have hnone : hashes ∪ receivedHashes ([] : List (UInt64 × α)) = hashes := Finset.union_empty _
    rw [hnone]
    exact ⟨h, .nil⟩
  | cons offer rest ih =>
    obtain ⟨hash, a⟩ := offer
    have hsplit : hashes ∪ receivedHashes ((hash, a) :: rest)
        = insert hash hashes ∪ receivedHashes rest := by
      rw [receivedHashes, List.map_cons, List.toFinset_cons, Finset.union_insert,
        Finset.insert_union]
      rfl
    rw [hsplit] at hroom ⊢
    have hfirst := h.add hash a ((Finset.card_le_card Finset.subset_union_left).trans hroom)
    have hlater := ih hfirst.1 (by rwa [capacity_add])
    exact ⟨hlater.1, .cons hfirst.2 hlater.2⟩

/-! ## New samples -/

/-- A new sample to which no more different hashes are offered than its capacity never drops one: it
keeps each of them that is not the largest word, which stands for no bound and is never kept; it
answers each offer by whether its hash is another one, unless a value refuses that of the offer; and
it counts the hashes that it keeps exactly. -/
theorem exact_until_full {capacity : Nat} {offers : List (UInt64 × α)}
    (hfew : (receivedHashes offers).card ≤ capacity) :
    (∀ n, ((new capacity).addAll (offers.take n)).2.isEstimating = false) ∧
      (∀ hash, (((new capacity).addAll offers).2.get? hash).isSome = true ↔
        hash ∈ receivedHashes offers ∧ hash ≠ noBound) ∧
      List.Forall₂ Answers offers ((new capacity).addAll offers).1 ∧
      ((new capacity).addAll offers).2.estimate
        = Numeric.doubleOfInt ((receivedHashes offers).erase noBound).card := by
  have hrun (more : List (UInt64 × α)) (hmore : receivedHashes more ⊆ receivedHashes offers) :
      HoldsAll (receivedHashes more) ((new capacity).addAll more).2 ∧
        List.Forall₂ Answers more ((new capacity).addAll more).1 := by
    have hroom : (∅ ∪ receivedHashes more).card ≤ (new capacity : HashSample α).capacity := by
      rw [Finset.empty_union]
      exact (Finset.card_le_card hmore).trans (hfew.trans (Nat.le_max_left _ _))
    have hall := (holdsAll_new capacity).addAll hroom
    rwa [Finset.empty_union] at hall
  have hsubset (n : Nat) : receivedHashes (offers.take n) ⊆ receivedHashes offers := by
    intro hash hmem
    rw [receivedHashes, List.mem_toFinset] at hmem ⊢
    exact List.map_subset Prod.fst (List.take_subset n offers) hmem
  obtain ⟨hholds, hanswers⟩ := hrun offers (Finset.Subset.refl _)
  refine ⟨fun n => (hrun _ (hsubset n)).1.isEstimating, fun hash => ?_, hanswers, ?_⟩
  · have hmem := Finset.ext_iff.1 hholds.hashes_eq hash
    rw [mem_hashesOf, Finset.mem_erase, and_comm] at hmem
    exact hmem
  · rw [estimate, hholds.isEstimating, hholds.retained]
    rfl

/-- Counts under two hashes, of which one is the largest word. -/
def tallies : List (UInt64 × Tally) := [(5, ⟨1⟩), (noBound, ⟨1⟩), (5, ⟨2⟩)]

theorem exact_until_full_tallies :
    (receivedHashes tallies).card ≤ 2 ∧
      (∀ n, ((new 2).addAll (tallies.take n)).2.isEstimating = false) ∧
      (∀ hash, (((new 2).addAll tallies).2.get? hash).isSome = true ↔
        hash ∈ receivedHashes tallies ∧ hash ≠ noBound) ∧
      List.Forall₂ Answers tallies ((new 2).addAll tallies).1 ∧
      ((new 2).addAll tallies).2.estimate
        = Numeric.doubleOfInt ((receivedHashes tallies).erase noBound).card := by
  have hfew : (receivedHashes tallies).card ≤ 2 := by decide
  exact ⟨hfew, exact_until_full hfew⟩

/-- The largest word alone, offered to a sample with room for one hash, is answered as if it lay
beyond a bound, and is not kept. -/
theorem noBound_not_kept :
    (receivedHashes [(noBound, ())]).card ≤ 1 ∧
      ((new 1).addAll [(noBound, ())]).1 = [.ok false] ∧
      ((new 1).addAll [(noBound, ())]).2.isEstimating = false ∧
      ((new 1).addAll [(noBound, ())]).2.get? noBound = none := by
  have hadd : (new 1).add noBound () = .done false (new 1) := (holdsAll_new 1).add_noBound ()
  have hrun : (new 1).addAll [(noBound, ())] = ([.ok false], new 1) := by
    rw [addAll, hadd]
    rfl
  rw [hrun]
  exact ⟨Nat.le_refl 1, rfl, (holdsAll_new 1).isEstimating, rfl⟩

end StreamQuery.HashSample
