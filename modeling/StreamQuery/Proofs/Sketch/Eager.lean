import StreamQuery.Proofs.Sketch.Gathers
set_option autoImplicit false

/-!
# Sketches of distinct hashes without laziness

A sketch of distinct hashes puts its merging off until it is read.  Nobody can tell: every read
is that of one sample to which all was offered at once, when it came.  Reads themselves, which move
what was offered from one sample of the sketch to another, leave no trace, and neither does the
order in which hashes and other sketches came.
-/

namespace StreamQuery

/-! ## Hashes as items -/

/-- Hashes are offered as they are, without a value. -/
def hashOffering : Offering UInt64 Unit := ⟨id, fun _ _ => ()⟩

theorem lawful_hashOffering : hashOffering.Lawful fun _ => True where
  combine_value _ := rfl
  value_perm _ _ := rfl

theorem offered_hashOffering (items : List UInt64) (h : UInt64) :
    hashOffering.offered items h = if h ∈ items then some () else none := by
  have hmem : h ∈ hashOffering.hashes items ↔ h ∈ items := by
    rw [Offering.mem_hashes]
    exact ⟨fun ⟨x, hx, he⟩ => he ▸ hx, fun hx => ⟨h, hx, rfl⟩⟩
  split
  · rename_i hin
    have hsome := Offering.isSome_offered_iff.2 (hmem.2 hin)
    obtain ⟨u, hu⟩ := Option.isSome_iff_exists.1 hsome
    exact hu
  · rename_i hout
    exact Offering.offered_eq_none_iff.2 fun hin => hout (hmem.1 hin)

/-- Any sample, wherever it comes from, covers the hashes that it holds. -/
theorem covers_keys (t : HashSample Unit) (k : Nat) :
    Covers hashOffering t.entries.keys t.bound k t where
  below h _ := by
    rw [offered_hashOffering]
    split
    · rename_i hin
      obtain ⟨u, hu⟩ := Option.isSome_iff_exists.1 (Keyed.mem_keys_iff.1 hin)
      exact hu
    · rename_i hout
      rw [Keyed.mem_keys_iff] at hout
      exact Option.not_isSome_iff_eq_none.1 hout
  le := UInt64.le_refl _
  cause := .inl rfl

/-! ## Steps -/

/-- What can be done to a sketch of distinct hashes. -/
inductive DistinctStep where
  | add (hash : UInt64)
  | union (bs : Bytes)
  | estimate
  | accuracy
  | bytes
  | reset

namespace DistinctStep

/-- Takes a step; what it answers is not looked at. -/
def apply (s : DistinctSketch) : DistinctStep → DistinctSketch
  | add hash => (Sketch.add s hash ()).2
  | union bs => (Sketch.unionBytes s bs).2
  | estimate => (DistinctSketch.estimate s).2
  | accuracy => (Sketch.accuracy s).2
  | bytes => (Sketch.bytes s).2
  | reset => Lazy.reset s

/-- Takes a step with a single sample.  What is offered goes into it at once, bytes that are refused
and reads do nothing to it. -/
def applyEager (t : HashSample Unit) : DistinctStep → HashSample Unit
  | add hash => (t.add hash ()).2
  | union bs =>
    match HashSample.ofBytes bs with
    | .ok (other, _) => (t.merge other).2
    | .error _ => t
  | estimate | accuracy | bytes => t
  | reset => t.clear

/-- Whether a step offers something. -/
def isOffer : DistinctStep → Bool
  | add _ | union _ => true
  | estimate | accuracy | bytes | reset => false

/-- The hashes that a step offers. -/
def hashes : DistinctStep → List UInt64
  | add hash => [hash]
  | union bs =>
    match HashSample.ofBytes (α := Unit) bs with
    | .ok (other, _) => other.entries.keys
    | .error _ => []
  | estimate | accuracy | bytes | reset => []

/-- The bound that comes with what a step offers. -/
def bound : DistinctStep → UInt64
  | union bs =>
    match HashSample.ofBytes (α := Unit) bs with
    | .ok (other, _) => other.bound
    | .error _ => HashSample.noBound
  | add _ | estimate | accuracy | bytes | reset => HashSample.noBound

end DistinctStep

/-- A sketch of distinct hashes after steps. -/
def runDistinct (capacity : Nat) (steps : List DistinctStep) : DistinctSketch :=
  steps.foldl DistinctStep.apply (Sketch.new capacity)

/-- The single sample after steps. -/
def runEager (capacity : Nat) (steps : List DistinctStep) : HashSample Unit :=
  steps.foldl DistinctStep.applyEager (HashSample.new capacity)

/-! ## One step -/

/-- A sketch and a single sample that were offered the same. -/
def SameOffers (capacity : Nat) (s : DistinctSketch) (t : HashSample Unit) : Prop :=
  ∃ items bound, Gathered hashOffering capacity items bound s ∧
    SampleOf hashOffering capacity items bound t

variable {capacity : Nat} {items : List UInt64} {bound : UInt64} {s : DistinctSketch}
  {t : HashSample Unit}

theorem SampleOf.applyEager (h : SampleOf hashOffering capacity items bound t)
    {step : DistinctStep} (hstep : step ≠ .reset) :
    SampleOf hashOffering capacity (items ++ step.hashes) (min bound step.bound)
      (step.applyEager t) := by
  have hsame : SampleOf hashOffering capacity (items ++ []) (min bound HashSample.noBound) t := by
    rw [List.append_nil, min_noBound]
    exact h
  cases step with
  | add hash =>
    obtain ⟨kept, t', hadd, ht'⟩ :=
      h.add lawful_hashOffering.toCombines (x := hash) fun _ _ => trivial
    have hadd' : t.add hash () = .done kept t' := hadd
    simp only [DistinctStep.applyEager, DistinctStep.hashes, DistinctStep.bound, hadd', min_noBound]
    exact ht'
  | union bs =>
    simp only [DistinctStep.applyEager, DistinctStep.hashes, DistinctStep.bound]
    cases HashSample.ofBytes (α := Unit) bs with
    | error e => exact hsame
    | ok read =>
      obtain ⟨t', hmerge, ht'⟩ := h.merge lawful_hashOffering.toCombines (covers_keys read.1 _)
        fun _ _ => trivial
      simp only [hmerge]
      exact ht'
  | estimate | accuracy | bytes => exact hsame
  | reset => exact absurd rfl hstep

theorem SameOffers.apply (h : SameOffers capacity s t) (step : DistinctStep) :
    SameOffers capacity (step.apply s) (step.applyEager t) := by
  obtain ⟨items, bound, hs, ht⟩ := h
  have hread : ∀ s', (Sketch.result s).2 = s' → Gathered hashOffering capacity items bound s' := by
    rintro s' rfl
    obtain ⟨r, s', hresult, -, hs'⟩ := hs.read lawful_hashOffering fun _ _ => trivial
    rw [hresult]
    exact hs'
  cases step with
  | reset =>
    exact ⟨[], HashSample.noBound, hs.reset, sampleOf_clear ht.capacity_eq⟩
  | add hash =>
    obtain ⟨kept, s', hadd, hs'⟩ := hs.add lawful_hashOffering (x := hash) fun _ _ => trivial
    have hadd' : Sketch.add s hash () = .done kept s' := hadd
    have hother : DistinctStep.add hash ≠ .reset := nofun
    have ht' := ht.applyEager hother
    refine ⟨items ++ [hash], bound, ?_, ?_⟩
    · simp only [DistinctStep.apply, hadd']
      exact hs'
    · simpa only [DistinctStep.hashes, DistinctStep.bound, min_noBound] using ht'
  | union bs =>
    have hother : DistinctStep.union bs ≠ .reset := nofun
    have ht' := ht.applyEager hother
    simp only [DistinctStep.hashes, DistinctStep.bound] at ht'
    cases hbs : HashSample.ofBytes (α := Unit) bs with
    | error e =>
      obtain ⟨s', hunion, hs'⟩ := hs.unionBytes_error hbs
      refine ⟨items, bound, ?_, ?_⟩
      · simp only [DistinctStep.apply, hunion]
        exact hs'
      · simpa only [hbs, List.append_nil, min_noBound] using ht'
    | ok read =>
      obtain ⟨s', hunion, hs'⟩ := hs.unionBytes lawful_hashOffering hbs (covers_keys read.1 _)
        fun _ _ => trivial
      refine ⟨items ++ read.1.entries.keys, min bound read.1.bound, ?_, ?_⟩
      · simp only [DistinctStep.apply, hunion]
        exact hs'
      · simpa only [hbs] using ht'
  | estimate => exact ⟨items, bound, hread _ rfl, ht⟩
  | accuracy => exact ⟨items, bound, hread _ rfl, ht⟩
  | bytes => exact ⟨items, bound, hread _ rfl, ht⟩

/-! ## Runs -/

theorem SameOffers.run (h : SameOffers capacity s t) (steps : List DistinctStep) :
    SameOffers capacity (steps.foldl DistinctStep.apply s)
      (steps.foldl DistinctStep.applyEager t) := by
  induction steps generalizing s t with
  | nil => exact h
  | cons step rest ih => exact ih (h.apply step)

theorem sameOffers_run (capacity : Nat) (steps : List DistinctStep) :
    SameOffers capacity (runDistinct capacity steps) (runEager capacity steps) := by
  apply SameOffers.run
  exact ⟨[], HashSample.noBound, gathered_new capacity, sampleOf_new capacity⟩

/-- Without a reset the single sample takes what the steps offer, all in all. -/
theorem SampleOf.runEager (h : SampleOf hashOffering capacity items bound t)
    {steps : List DistinctStep} (hsteps : ∀ step ∈ steps, step ≠ .reset) :
    SampleOf hashOffering capacity (items ++ steps.flatMap DistinctStep.hashes)
      (steps.foldl (fun m step => min m step.bound) bound)
      (steps.foldl DistinctStep.applyEager t) := by
  induction steps generalizing items bound t with
  | nil =>
    rw [List.flatMap_nil, List.append_nil]
    exact h
  | cons step rest ih =>
    have hfirst := h.applyEager (hsteps step List.mem_cons_self)
    have hrest := ih hfirst fun step hstep => hsteps step (List.mem_cons_of_mem _ hstep)
    rw [List.flatMap_cons, ← List.append_assoc]
    exact hrest

/-- A step that offers nothing and is no reset does nothing to the single sample. -/
theorem applyEager_filter {steps : List DistinctStep} (hsteps : ∀ step ∈ steps, step ≠ .reset) :
    steps.foldl DistinctStep.applyEager t
      = (steps.filter DistinctStep.isOffer).foldl DistinctStep.applyEager t := by
  induction steps generalizing t with
  | nil => rfl
  | cons step rest ih =>
    have ih := fun t => ih (t := t) fun step hstep => hsteps step (List.mem_cons_of_mem _ hstep)
    cases step with
    | add hash => exact ih _
    | union bs => exact ih _
    | estimate => exact ih _
    | accuracy => exact ih _
    | bytes => exact ih _
    | reset => exact absurd rfl (hsteps .reset List.mem_cons_self)

/-- The single sample does not see the order of what it is offered. -/
theorem applyEager_perm (h : SampleOf hashOffering capacity items bound t)
    {steps steps' : List DistinctStep} (hsteps : ∀ step ∈ steps, step ≠ .reset)
    (hperm : steps.Perm steps') :
    steps.foldl DistinctStep.applyEager t = steps'.foldl DistinctStep.applyEager t := by
  have hsteps' : ∀ step ∈ steps', step ≠ .reset := fun step hs => hsteps step (hperm.mem_iff.2 hs)
  have hbound : steps.foldl (fun m step => min m step.bound) bound
      = steps'.foldl (fun m step => min m step.bound) bound := by
    have : RightCommutative fun (m : UInt64) (step : DistinctStep) => min m step.bound :=
      ⟨fun l m n => min_right_comm l m.bound n.bound⟩
    exact hperm.foldl_eq bound
  have hitems : (items ++ steps.flatMap DistinctStep.hashes).Perm
      (items ++ steps'.flatMap DistinctStep.hashes) :=
    (hperm.flatMap_right DistinctStep.hashes).append_left items
  have hrun := (h.runEager hsteps).perm lawful_hashOffering (fun _ _ => trivial) hitems
  rw [hbound] at hrun
  exact hrun.unique (h.runEager hsteps')

/-! ## Reads -/

/-- All that is answered by a sketch is answered as one sample has it. -/
structure ReadsAs (s : DistinctSketch) (t : HashSample Unit) : Prop where
  result : (Sketch.result s).1 = .ok t
  estimate : (DistinctSketch.estimate s).1 = .ok t.estimate
  accuracy : (Sketch.accuracy s).1 = .ok t.accuracy
  bytes : (Sketch.bytes s).1 = t.toBytes
  bytes_ok : t.toJson.bytes.length < 2 ^ 32 → ∃ framed, (Sketch.bytes s).1 = .ok framed
  /-- A union fails for bytes that are refused and for no others. -/
  union : ∀ bs, (Sketch.unionBytes s bs).1
    = (HashSample.ofBytes bs : Outcome (HashSample Unit × Nat)).map Prod.snd

theorem SameOffers.readsAs (h : SameOffers capacity s t) : ReadsAs s t := by
  obtain ⟨items, bound, hs, ht⟩ := h
  obtain ⟨r, s', hread, hr, -⟩ := hs.read lawful_hashOffering fun _ _ => trivial
  have hresult : Sketch.result s = .done t s' := by
    rw [hread, hr.unique ht]
  have hbytes : (Sketch.bytes s).1 = t.toBytes := by
    rw [bytes_of_result hresult]
  exact {
    result := by rw [hresult]; rfl
    estimate := by rw [DistinctSketch.estimate, hresult]; rfl
    accuracy := by rw [Sketch.accuracy, hresult]; rfl
    bytes := hbytes
    bytes_ok := by
      intro hsize
      have hfits : t.toJson.bytes.length < 256 ^ Bytes.headerSize := hsize
      rw [hbytes, HashSample.toBytes, Bytes.frame, if_pos hfits]
      exact ⟨_, rfl⟩
    union := by
      intro bs
      cases hbs : HashSample.ofBytes (α := Unit) bs with
      | error e =>
        obtain ⟨s'', hunion, -⟩ := hs.unionBytes_error hbs
        rw [hunion]
        rfl
      | ok read =>
        obtain ⟨s'', hunion, -⟩ := hs.unionBytes lawful_hashOffering hbs (covers_keys read.1 _)
          fun _ _ => trivial
        rw [hunion]
        rfl }

/-- Whatever is done to a sketch of distinct hashes, no read fails, and it reads as the single
sample to which the same was done at once.  That stays so when, between two resets, reads are put
in or left out and what is offered comes in another order. -/
theorem distinct_reads_are_eager (capacity : Nat) (steps : List DistinctStep) :
    ReadsAs (runDistinct capacity steps) (runEager capacity steps) ∧
      ∀ before between between' after : List DistinctStep,
        steps = before ++ between ++ after →
        (∀ step ∈ between ++ between', step ≠ .reset) →
        (between.filter DistinctStep.isOffer).Perm (between'.filter DistinctStep.isOffer) →
        ReadsAs (runDistinct capacity (before ++ between' ++ after)) (runEager capacity steps) := by
  refine ⟨(sameOffers_run capacity steps).readsAs, ?_⟩
  rintro before between between' after rfl hreset hperm
  have hbetween : ∀ step ∈ between, step ≠ .reset := fun step hs =>
    hreset step (List.mem_append_left _ hs)
  have hbetween' : ∀ step ∈ between', step ≠ .reset := fun step hs =>
    hreset step (List.mem_append_right _ hs)
  have hsame : runEager capacity (before ++ between ++ after)
      = runEager capacity (before ++ between' ++ after) := by
    obtain ⟨items, bound, -, hbefore⟩ := sameOffers_run capacity before
    have hoffers : ∀ step ∈ between.filter DistinctStep.isOffer, step ≠ .reset :=
      fun step hs => hbetween step (List.mem_of_mem_filter hs)
    have hmiddle := applyEager_perm hbefore hoffers hperm
    rw [← applyEager_filter hbetween, ← applyEager_filter hbetween'] at hmiddle
    simp only [StreamQuery.runEager, List.foldl_append] at hmiddle ⊢
    rw [hmiddle]
  rw [hsame]
  exact (sameOffers_run capacity _).readsAs

/-- A hash, bytes that are refused, a read, and a smaller hash. -/
def largerFirst : List DistinctStep := [.add 3, .union [1, 0, 0], .bytes, .add 2]

/-- The same offers in another order, with another read. -/
def smallerFirst : List DistinctStep := [.add 2, .estimate, .add 3, .union [1, 0, 0]]

/-- With room for one hash the larger one is dropped when it comes first, and not admitted when it
comes after the read. -/
theorem distinct_reads_are_eager_larger_first :
    ((∀ step ∈ largerFirst ++ smallerFirst, step ≠ .reset) ∧
      (largerFirst.filter DistinctStep.isOffer).Perm
        (smallerFirst.filter DistinctStep.isOffer)) ∧
    ReadsAs (runDistinct 1 ([.reset] ++ smallerFirst ++ [.accuracy]))
      (runEager 1 ([.reset] ++ largerFirst ++ [.accuracy])) := by
  have hreset : ∀ step ∈ largerFirst ++ smallerFirst, step ≠ .reset := by
    intro step hstep
    simp only [largerFirst, smallerFirst, List.cons_append, List.nil_append, List.mem_cons,
      List.not_mem_nil, or_false] at hstep
    rcases hstep with rfl | rfl | rfl | rfl | rfl | rfl | rfl | rfl <;> nofun
  have hperm : (largerFirst.filter DistinctStep.isOffer).Perm
      (smallerFirst.filter DistinctStep.isOffer) := by
    have hswap : ∀ first second : List DistinctStep, (first ++ second).Perm (second ++ first) :=
      fun _ _ => List.perm_append_comm
    exact hswap [.add 3, .union [1, 0, 0]] [.add 2]
  exact ⟨⟨hreset, hperm⟩,
    (distinct_reads_are_eager 1 _).2 [.reset] largerFirst smallerFirst [.accuracy] rfl hreset
      hperm⟩

end StreamQuery
