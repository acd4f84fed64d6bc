import StreamQuery.Proofs.Keyed
import StreamQuery.Proofs.Sketch.Unfailing
set_option autoImplicit false

/-!
# Sketches with mapped values

A map of values that respects combining carries every operation of a sketch along, as long as the
operation succeeds: what is done to the sketch is done to the sketch of the mapped values.  So what
is known of a sketch whose values never refuse each other says something about one whose values do.
-/

namespace StreamQuery

/-! ## Tables -/

namespace Keyed

variable {κ α β : Type} [Ord κ]

/-- A table with its values mapped. -/
def mapValues (f : α → β) (t : Keyed κ α) : Keyed κ β :=
  ⟨t.entries.map fun e => (e.1, f e.2), t.ascending.map _ fun _ _ h => h⟩

theorem findEntry_map (f : α → β) (k : κ) (entries : List (κ × α)) :
    findEntry k (entries.map fun e => (e.1, f e.2)) = (findEntry k entries).map f := by
  induction entries with
  | nil => rfl
  | cons e rest ih =>
    rw [List.map_cons, findEntry_cons, findEntry_cons, ih]
    split <;> rfl

theorem get?_mapValues (f : α → β) (t : Keyed κ α) (k : κ) :
    (t.mapValues f).get? k = (t.get? k).map f :=
  findEntry_map f k t.entries

theorem mapValues_insert [Std.TransOrd κ] [Std.LawfulEqOrd κ] (f : α → β) (t : Keyed κ α) (k : κ)
    (a : α) : (t.insert k a).mapValues f = (t.mapValues f).insert k (f a) := by
  apply ext_get?
  intro k'
  rw [get?_mapValues, get?_insert, get?_insert, get?_mapValues]
  split <;> rfl

theorem mapValues_filter (f : α → β) (t : Keyed κ α) (p : κ → Bool) :
    (t.filter fun e => p e.1).mapValues f = (t.mapValues f).filter fun e => p e.1 := by
  apply ext
  show ((t.entries.filter _).map _) = (t.entries.map _).filter _
  rw [List.filter_map]
  rfl

theorem mapValues_take (f : α → β) (t : Keyed κ α) (n : Nat) :
    (t.take n).mapValues f = (t.mapValues f).take n :=
  ext List.map_take

end Keyed

/-! ## Transitions that are carried along -/

section Carries

variable {σ τ σ' τ' α β γ δ : Type}

/-- Where a transition succeeds, another one does the same to the mapped state with the mapped
answer. -/
def Transition.Carries (f : α → β) (φ : σ → τ) (t : Transition σ α) (t' : Transition τ β) : Prop :=
  ∀ a s, t = .done a s → t' = .done (f a) (φ s)

namespace Transition

variable {f : α → β} {f' : γ → δ} {φ : σ → τ} {ψ : σ' → τ'} {t : Transition σ α}
  {t' : Transition τ β}

theorem carries_done (f : α → β) (φ : σ → τ) (a : α) (s : σ) :
    Carries f φ (.done a s) (.done (f a) (φ s)) := by
  rintro _ _ ⟨⟩
  rfl

theorem Carries.andThen {next : α → σ → Transition σ γ} {next' : β → τ → Transition τ δ}
    (h : Carries f φ t t') (hnext : ∀ a s, Carries f' φ (next a s) (next' (f a) (φ s))) :
    Carries f' φ (t.andThen next) (t'.andThen next') := by
  intro c s' hdone
  obtain ⟨⟨e⟩ | ⟨a⟩, s⟩ := t
  · cases hdone
  · rw [h a s rfl]
    exact hnext a s c s' hdone

theorem Carries.within {g : σ → σ'} {g' : τ → τ'} (h : Carries f φ t t')
    (hg : ∀ s, ψ (g s) = g' (φ s)) : Carries f ψ (t.within g) (t'.within g') := by
  rintro _ _ hdone
  obtain ⟨⟨e⟩ | ⟨a⟩, s⟩ := t
  · cases hdone
  · cases hdone
    rw [h _ s rfl, hg]
    rfl

theorem Carries.map {g : α → γ} {g' : β → δ} (h : Carries f φ t t')
    (hg : ∀ a, f' (g a) = g' (f a)) : Carries f' φ (t.map g) (t'.map g') := by
  rintro _ s hdone
  obtain ⟨⟨e⟩ | ⟨a⟩, s⟩ := t
  · cases hdone
  · cases hdone
    rw [h a s rfl, hg]
    rfl

end Transition

end Carries

open Transition (Carries)

/-! ## Samples -/

variable {α β : Type}

namespace HashSample

/-- A sample with its values mapped. -/
def mapValues (f : α → β) (s : HashSample α) : HashSample β :=
  ⟨s.capacity, s.bound, s.entries.mapValues f⟩

variable (f : α → β)

@[simp] theorem capacity_mapValues (s : HashSample α) : (s.mapValues f).capacity = s.capacity := rfl

@[simp] theorem bound_mapValues (s : HashSample α) : (s.mapValues f).bound = s.bound := rfl

theorem get?_mapValues (s : HashSample α) (hash : UInt64) :
    (s.mapValues f).get? hash = (s.get? hash).map f :=
  Keyed.get?_mapValues f s.entries hash

theorem mapValues_trim (s : HashSample α) : (s.mapValues f).trim = s.trim.mapValues f := by
  have hentry : (s.mapValues f).entries.entries[s.capacity]?
      = s.entries.entries[s.capacity]?.map fun e => (e.1, f e.2) := List.getElem?_map
  unfold trim
  rw [capacity_mapValues, hentry]
  cases s.entries.entries[s.capacity]? with
  | none => rfl
  | some e => exact congrArg (HashSample.mk _ _) (Keyed.mapValues_take f s.entries _).symm

variable {f} [Combine α] [Combine β]

/-- Two values combine to what their images combine to. -/
def Respects (f : α → β) : Prop :=
  ∀ a b : α, Carries (id : Unit → Unit) f (Combine.combine a b) (Combine.combine (f a) (f b))

theorem carries_absorb (hf : Respects f) (t : Keyed UInt64 α) (hash : UInt64) (a : α) :
    Carries (id : Unit → Unit) (Keyed.mapValues f) (absorb t hash a)
      (absorb (t.mapValues f) hash (f a)) := by
  unfold absorb
  rw [Keyed.get?_mapValues]
  cases t.get? hash with
  | none =>
    rw [Option.map_none, ← Keyed.mapValues_insert]
    exact Transition.carries_done _ _ _ _
  | some present =>
    rw [Option.map_some]
    exact (hf present a).within fun b => Keyed.mapValues_insert f t hash b

theorem carries_absorbAll (hf : Respects f) (t : Keyed UInt64 α) (entries : List (UInt64 × α)) :
    Carries (id : Unit → Unit) (Keyed.mapValues f) (absorbAll t entries)
      (absorbAll (t.mapValues f) (entries.map fun e => (e.1, f e.2))) := by
  induction entries generalizing t with
  | nil => exact Transition.carries_done _ _ _ _
  | cons e rest ih => exact (carries_absorb hf t e.1 e.2).andThen fun _ t => ih t

theorem carries_add (hf : Respects f) (s : HashSample α) (hash : UInt64) (a : α) :
    Carries (id : Bool → Bool) (mapValues f) (s.add hash a) ((s.mapValues f).add hash (f a)) := by
  unfold add
  rw [bound_mapValues]
  split
  · exact Transition.carries_done _ _ _ _
  · have habsorbed : Carries (id : Unit → Unit) (mapValues f)
        ((absorb s.entries hash a).within fun entries => { s with entries })
        ((absorb (s.entries.mapValues f) hash (f a)).within fun entries =>
          { s.mapValues f with entries }) :=
      (carries_absorb hf s.entries hash a).within fun _ => rfl
    refine habsorbed.andThen fun _ t => ?_
    have hkept : (t.trim.mapValues f).entries.contains hash = t.trim.entries.contains hash := by
      show ((t.trim.mapValues f).get? hash).isSome = _
      rw [get?_mapValues, Option.isSome_map]
      rfl
    rw [mapValues_trim]
    show Carries id _ (.done (t.trim.entries.contains hash) t.trim) (.done _ (t.trim.mapValues f))
    rw [hkept]
    exact Transition.carries_done _ _ _ _

theorem carries_merge (hf : Respects f) (s other : HashSample α) :
    Carries (id : Unit → Unit) (mapValues f) (s.merge other)
      ((s.mapValues f).merge (other.mapValues f)) := by
  have hbelow (t : Keyed UInt64 α) :
      (t.mapValues f).filter (fun e => decide (e.1 < min s.bound other.bound))
        = (t.filter fun e => decide (e.1 < min s.bound other.bound)).mapValues f :=
    (Keyed.mapValues_filter f t fun h => decide (h < min s.bound other.bound)).symm
  have habsorbed : Carries (id : Unit → Unit) (mapValues f)
      ((absorbAll (s.entries.filter fun e => decide (e.1 < min s.bound other.bound))
        (other.entries.filter fun e => decide (e.1 < min s.bound other.bound)).entries).within
          fun entries => ⟨s.capacity, min s.bound other.bound, entries⟩)
      ((absorbAll ((s.entries.mapValues f).filter fun e => decide (e.1 < min s.bound other.bound))
        ((other.entries.mapValues f).filter
          fun e => decide (e.1 < min s.bound other.bound)).entries).within
            fun entries => ⟨s.capacity, min s.bound other.bound, entries⟩) := by
    rw [hbelow, hbelow]
    exact (carries_absorbAll hf _ _).within fun _ => rfl
  refine habsorbed.andThen fun _ t => ?_
  rw [mapValues_trim]
  exact Transition.carries_done _ _ _ _

end HashSample

/-! ## Sketches -/

namespace Sketch

/-- The samples of a sketch with their values mapped. -/
def mapParts (f : α → β) (p : SampleParts α) : SampleParts β :=
  ⟨p.updates.mapValues f, p.unions.mapValues f, p.result.map (HashSample.mapValues f),
    p.blank.mapValues f⟩

/-- A sketch with its values mapped. -/
def mapValues (f : α → β) (k : Sketch α) : Sketch β := { k with parts := mapParts f k.parts }

variable {f : α → β}

@[simp] theorem result_mapParts (p : SampleParts α) :
    (mapParts f p).result = p.result.map (HashSample.mapValues f) := rfl

@[simp] theorem updated_mapValues (k : Sketch α) : (mapValues f k).updated = k.updated := rfl

@[simp] theorem unioned_mapValues (k : Sketch α) : (mapValues f k).unioned = k.unioned := rfl

@[simp] theorem stale_mapValues (k : Sketch α) : (mapValues f k).stale = k.stale := rfl

variable [Combine α] [Combine β]

theorem carries_mergeIntoUnions (hf : HashSample.Respects f) (p : SampleParts α)
    (s : HashSample α) : Carries (id : Unit → Unit) (mapParts f) (p.mergeIntoUnions s)
      ((mapParts f p).mergeIntoUnions (s.mapValues f)) :=
  (HashSample.carries_merge hf p.unions s).within fun _ => rfl

theorem carries_foldResult (hf : HashSample.Respects f) (k : Sketch α) :
    Carries (id : Unit → Unit) (mapValues f) (Lazy.foldResult k)
      (Lazy.foldResult (mapValues f k)) := by
  have hparts : Carries (id : Bool → Bool) (mapParts f) (SampleParts.foldResult k.parts)
      (SampleParts.foldResult (mapParts f k.parts)) := by
    unfold SampleParts.foldResult
    rw [result_mapParts]
    cases k.parts.result with
    | none => exact Transition.carries_done _ _ _ _
    | some r =>
      exact (carries_mergeIntoUnions hf { k.parts with result := none } r).map fun _ => rfl
  have hwithin : Carries (id : Bool → Bool) (mapValues f)
      ((SampleParts.foldResult k.parts).within fun parts => { k with parts })
      ((SampleParts.foldResult (mapParts f k.parts)).within
        fun parts => { mapValues f k with parts }) :=
    hparts.within fun _ => rfl
  exact hwithin.andThen fun _ _ => Transition.carries_done _ _ _ _

theorem carries_mergePending (hf : HashSample.Respects f) (k : Sketch α) :
    Carries (id : Unit → Unit) (mapValues f) (Lazy.mergePending k)
      (Lazy.mergePending (mapValues f k)) := by
  have hboth : Carries (id : Unit → Unit) (mapParts f) (SampleParts.mergeBoth k.parts)
      (SampleParts.mergeBoth (mapParts f k.parts)) :=
    (carries_mergeIntoUnions hf { k.parts with updates := k.parts.blank } k.parts.updates).andThen
      fun _ _ => Transition.carries_done _ _ _ _
  unfold Lazy.mergePending
  rw [updated_mapValues, unioned_mapValues]
  cases k.updated <;> cases k.unioned
  · exact (Transition.carries_done _ _ _ k.parts.publishUpdates).within fun _ => rfl
  · exact (Transition.carries_done _ _ _ k.parts.publishUnions).within fun _ => rfl
  · exact (Transition.carries_done _ _ _ k.parts.publishUpdates).within fun _ => rfl
  · exact hboth.within fun _ => rfl

theorem carries_merge (hf : HashSample.Respects f) (k : Sketch α) :
    Carries (id : Unit → Unit) (mapValues f) (Lazy.merge k) (Lazy.merge (mapValues f k)) := by
  unfold Lazy.merge
  rw [stale_mapValues]
  split
  · exact (carries_foldResult hf k).andThen fun _ k =>
      (carries_mergePending hf k).andThen fun _ _ => Transition.carries_done _ _ _ _
  · exact Transition.carries_done _ _ _ _

/-- A sketch that is read gives the sample whose mapped values a read of the mapped sketch gives. -/
theorem carries_result (hf : HashSample.Respects f) (k : Sketch α) :
    Carries (HashSample.mapValues f) (mapValues f) (Sketch.result k)
      (Sketch.result (mapValues f k)) := by
  intro t k' hread
  have hmerge : Lazy.merge k = .done () k' := by
    rcases hcase : Lazy.merge k with ⟨⟨e⟩ | ⟨⟨⟩⟩, k₁⟩
    · rw [result_of_fail hcase] at hread
      cases hread
    · have hleft := Sketch.snd_result k
      rw [hread, hcase] at hleft
      exact congrArg (Transition.done ()) hleft.symm
  have hres : (mapValues f k').parts.result = some (t.mapValues f) :=
    congrArg (Option.map (HashSample.mapValues f)) (parts_result_of_done hread)
  exact result_of_done (carries_merge hf k () k' hmerge) hres

/-- A value that a sketch takes is taken by the mapped sketch. -/
theorem carries_add (hf : HashSample.Respects f) (k : Sketch α) (hash : UInt64) (a : α) :
    Carries (id : Bool → Bool) (mapValues f) (Sketch.add k hash a)
      (Sketch.add (mapValues f k) hash (f a)) := by
  have hparts : Carries (id : Bool → Bool) (mapParts f)
      ((k.parts.updates.add hash a).within fun updates => { k.parts with updates })
      (((mapParts f k.parts).updates.add hash (f a)).within
        fun updates => { mapParts f k.parts with updates }) :=
    (HashSample.carries_add hf k.parts.updates hash a).within fun _ => rfl
  have hsketch : Carries (id : Bool → Bool) (mapValues f)
      (((k.parts.updates.add hash a).within fun updates => { k.parts with updates }).within
        fun parts => { k with parts, updated := true, stale := true })
      ((((mapParts f k.parts).updates.add hash (f a)).within
        fun updates => { mapParts f k.parts with updates }).within
          fun parts => { mapValues f k with parts, updated := true, stale := true }) :=
    hparts.within fun _ => rfl
  exact hsketch

end Sketch

end StreamQuery
