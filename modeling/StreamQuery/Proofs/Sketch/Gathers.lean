import StreamQuery.Proofs.Sample.Capacity
import StreamQuery.Proofs.Sketch.Outcomes
set_option autoImplicit false

/-!
# What a sketch gathers

A sketch spreads what it is offered over three samples, and a merge carries it from one to
another.  Nothing is lost on the way: at every moment the three hold, between them, what
was offered since the sketch was last empty, and a read brings it together in one sample.
-/

namespace StreamQuery

/-- How items are spread over the samples of a sketch, with the bounds that came with unions. -/
structure Spread (ρ : Type) where
  updates : List ρ
  unions : List ρ
  unionBound : UInt64
  result : List ρ
  resultBound : UInt64

namespace Spread

variable {ρ : Type}

/-- All the items. -/
def items (d : Spread ρ) : List ρ := d.unions ++ d.result ++ d.updates

/-- The smallest of the bounds. -/
def bound (d : Spread ρ) : UInt64 := min d.unionBound d.resultBound

/-- Nothing is spread. -/
def none : Spread ρ := ⟨[], [], HashSample.noBound, [], HashSample.noBound⟩

/-- All items lie in the result. -/
def settled (items : List ρ) (bound : UInt64) : Spread ρ :=
  ⟨[], [], HashSample.noBound, items, bound⟩

/-- The items of the result lie with the unions. -/
def fold (d : Spread ρ) : Spread ρ :=
  ⟨d.updates, d.unions ++ d.result, d.bound, [], HashSample.noBound⟩

end Spread

@[simp] theorem Spread.items_settled {ρ : Type} (items : List ρ) (bound : UInt64) :
    (Spread.settled items bound).items = items := by
  simp [Spread.settled, Spread.items]

/-! ## The invariant -/

variable {ρ α : Type} {o : Offering ρ α} {capacity : Nat} {items more : List ρ}
  {bound bound' : UInt64} {s t : HashSample α}

/-- The samples of a sketch hold items as they are spread.  What no flag tells of is not there, and
a sketch that was merged since it was last offered something has its result. -/
structure Gathers (o : Offering ρ α) (capacity : Nat) (d : Spread ρ) (s : Sketch α) : Prop where
  blank : s.parts.blank = HashSample.new capacity
  updates : SampleOf o capacity d.updates HashSample.noBound s.parts.updates
  unions : SampleOf o capacity d.unions d.unionBound s.parts.unions
  result : ∀ t, s.parts.result = some t → SampleOf o capacity d.result d.resultBound t
  no_result : s.parts.result = .none → d.result = [] ∧ d.resultBound = HashSample.noBound
  no_updates : s.updated = false → d.updates = []
  no_unions : s.unioned = false → d.unions = [] ∧ d.unionBound = HashSample.noBound
  idle : s.stale = false → s.updated = false ∧ s.unioned = false ∧ s.parts.result ≠ .none

theorem gathers_new (capacity : Nat) :
    Gathers o capacity .none (Sketch.new capacity : Sketch α) where
  blank := rfl
  updates := sampleOf_new capacity
  unions := sampleOf_new capacity
  result := fun _ h => nomatch h
  no_result _ := ⟨rfl, rfl⟩
  no_updates _ := rfl
  no_unions _ := ⟨rfl, rfl⟩
  idle h := nomatch h

variable {d : Spread ρ} {k : Sketch α}

/-- A sketch that is settled has all items in its result. -/
theorem Gathers.settle (hblank : k.parts.blank = HashSample.new capacity)
    (hupdates : k.parts.updates = k.parts.blank) (hunions : k.parts.unions = k.parts.blank)
    (hres : k.parts.result = some t) (ht : SampleOf o capacity items bound t) :
    Gathers o capacity (.settled items bound) k.settle where
  blank := hblank
  updates := by
    show SampleOf o capacity [] _ k.parts.updates
    rw [hupdates, hblank]
    exact sampleOf_new capacity
  unions := by
    show SampleOf o capacity [] _ k.parts.unions
    rw [hunions, hblank]
    exact sampleOf_new capacity
  result := by
    intro t' ht'
    have hsome : k.parts.result = some t' := ht'
    rw [hres] at hsome
    cases hsome
    exact ht
  no_result := by
    intro hnone
    have hnone' : k.parts.result = .none := hnone
    rw [hres] at hnone'
    cases hnone'
  no_updates _ := rfl
  no_unions _ := ⟨rfl, rfl⟩
  idle _ := by
    refine ⟨rfl, rfl, ?_⟩
    show k.parts.result ≠ .none
    rw [hres]
    exact Option.some_ne_none t

section Combining

variable [Combine α] {fits : ρ → Prop}

/-! ## Folding and merging -/

/-- Folding takes the items of a result to the unions. -/
theorem Gathers.foldResult (combines : o.Combines fits) (h : Gathers o capacity d k)
    (hfit : ∀ x ∈ d.items, fits x) (hstale : k.stale = true) :
    ∃ k', Lazy.foldResult k = .done () k' ∧ Gathers o capacity d.fold k' ∧
      k'.parts.result = .none ∧ k'.stale = true := by
  have hmem : ∀ x ∈ d.unions ++ d.result, fits x := fun x hx => hfit x (List.mem_append_left _ hx)
  cases hres : k.parts.result with
  | none =>
    obtain ⟨hnil, hbound⟩ := h.no_result hres
    have hfold : d.fold = ⟨d.updates, d.unions, d.unionBound, [], HashSample.noBound⟩ := by
      simp only [Spread.fold, Spread.bound, hnil, hbound, List.append_nil, min_noBound]
    refine ⟨k, foldResult_of_none hres, ?_, hres, hstale⟩
    rw [hfold]
    exact { h with
      result := by
        intro t ht
        rw [hres] at ht
        cases ht
      no_result := fun _ => ⟨rfl, rfl⟩ }
  | some t =>
    obtain ⟨unions, hmerge, hunions⟩ := h.unions.merge combines (h.result t hres).covers hmem
    refine ⟨_, foldResult_of_done hres hmerge, ?_, rfl, hstale⟩
    exact {
      blank := h.blank
      updates := h.updates
      unions := hunions
      result := fun _ ht => nomatch ht
      no_result := fun _ => ⟨rfl, rfl⟩
      no_updates := h.no_updates
      no_unions := fun hu => nomatch hu
      idle := by
        intro hidle
        have hstale' : k.stale = false := hidle
        rw [hstale] at hstale'
        cases hstale' }

/-- Merging what is pending, once a result is folded, takes all items to the result. -/
theorem Gathers.mergePending (combines : o.Combines fits) (h : Gathers o capacity d k)
    (hfit : ∀ x ∈ d.unions ++ d.updates, fits x) :
    ∃ k', Lazy.mergePending k = .done () k' ∧
      Gathers o capacity (.settled (d.unions ++ d.updates) d.unionBound) k'.settle := by
  have hblank : SampleOf o capacity [] HashSample.noBound k.parts.blank := by
    rw [h.blank]
    exact sampleOf_new capacity
  cases hunioned : k.unioned with
  | false =>
    obtain ⟨hnil, hbound⟩ := h.no_unions hunioned
    have hunions := h.unions
    rw [hnil, hbound] at hunions ⊢
    refine ⟨_, mergePending_of_not_unioned hunioned, ?_⟩
    exact .settle h.blank rfl (hunions.unique hblank) rfl h.updates
  | true =>
    cases hupdated : k.updated with
    | false =>
      have hupdates := h.updates
      rw [h.no_updates hupdated] at hupdates ⊢
      rw [List.append_nil]
      refine ⟨_, mergePending_of_not_updated hunioned hupdated, ?_⟩
      exact .settle h.blank (hupdates.unique hblank) rfl rfl h.unions
    | true =>
      obtain ⟨unions, hmerge, hunions⟩ := h.unions.merge combines h.updates.covers hfit
      rw [min_noBound] at hunions
      refine ⟨_, mergePending_of_done hunioned hupdated hmerge, ?_⟩
      exact .settle h.blank rfl rfl rfl hunions

/-- Merging takes all items to the result. -/
theorem Gathers.merge (combines : o.Combines fits) (h : Gathers o capacity d k)
    (hfit : ∀ x ∈ d.items, fits x) :
    ∃ k', Lazy.merge k = .done () k' ∧ Gathers o capacity (.settled d.items d.bound) k' ∧
      k'.stale = false := by
  cases hstale : k.stale with
  | false =>
    obtain ⟨hupdated, hunioned, -⟩ := h.idle hstale
    obtain ⟨hnil, hbound⟩ := h.no_unions hunioned
    have hempty := h.no_updates hupdated
    have hd : Spread.settled d.items d.bound = d := by
      cases d
      simp only [Spread.settled, Spread.items, Spread.bound] at hnil hbound hempty ⊢
      simp [hnil, hbound, hempty]
    rw [hd]
    exact ⟨k, Lazy.merge_of_not_stale hstale, h, hstale⟩
  | true =>
    obtain ⟨k₁, hfold, h₁, -, -⟩ := h.foldResult combines hfit hstale
    obtain ⟨k₂, hpending, h₂⟩ := h₁.mergePending combines hfit
    refine ⟨k₂.settle, ?_, h₂, rfl⟩
    simp only [Lazy.merge, hstale, hfold, hpending, Transition.andThen_done, if_true]

/-- A read succeeds with the sample of all items, and leaves them in the result. -/
theorem Gathers.read (combines : o.Combines fits) (h : Gathers o capacity d k)
    (hfit : ∀ x ∈ d.items, fits x) :
    ∃ t k', Sketch.result k = .done t k' ∧ SampleOf o capacity d.items d.bound t ∧
      Gathers o capacity (.settled d.items d.bound) k' := by
  obtain ⟨k', hmerge, hk', hidle⟩ := h.merge combines hfit
  obtain ⟨t, ht⟩ := Option.ne_none_iff_exists'.1 (hk'.idle hidle).2.2
  exact ⟨t, k', result_of_done hmerge ht, hk'.result t ht, hk'⟩

/-! ## Offering -/

/-- A sketch takes an item to its updates. -/
theorem Gathers.add (combines : o.Combines fits) (h : Gathers o capacity d k) {x : ρ}
    (hfit : ∀ y ∈ d.updates ++ [x], fits y) :
    ∃ kept k', Sketch.add k (o.hash x) (o.value x []) = .done kept k' ∧
      Gathers o capacity { d with updates := d.updates ++ [x] } k' := by
  obtain ⟨kept, updates, hadd, hupdates⟩ := h.updates.add combines hfit
  refine ⟨kept, { k with parts := { k.parts with updates }, updated := true, stale := true },
    ?_, ?_⟩
  · simp only [Sketch.add, Lazy.update, hadd]
    rfl
  · exact { h with
      updates := hupdates
      no_updates := fun hu => nomatch hu
      idle := fun hi => nomatch hi }

/-- A sketch takes the items that a sample covers to its unions. -/
theorem Gathers.union (combines : o.Combines fits) (h : Gathers o capacity d k)
    (hother : Covers o more bound (max capacity 1) t) (hfit : ∀ y ∈ d.unions ++ more, fits y) :
    ∃ unions, k.parts.unions.merge t = .done () unions ∧
      Gathers o capacity
        { d with unions := d.unions ++ more, unionBound := min d.unionBound bound }
        { k with parts := { k.parts with unions }, unioned := true, stale := true } := by
  obtain ⟨unions, hmerge, hunions⟩ := h.unions.merge combines hother hfit
  exact ⟨unions, hmerge, { h with
    unions := hunions
    no_unions := fun hu => nomatch hu
    idle := fun hi => nomatch hi }⟩

section Bytes

variable [JsonForm α]

/-- A sketch takes the items that a sample given as bytes covers to its unions. -/
theorem Gathers.unionBytes (combines : o.Combines fits) (h : Gathers o capacity d k) {bs : Bytes}
    {used : Nat} (hread : HashSample.ofBytes bs = .ok (t, used))
    (hother : Covers o more bound (max capacity 1) t) (hfit : ∀ y ∈ d.unions ++ more, fits y) :
    ∃ k', Sketch.unionBytes k bs = .done used k' ∧
      Gathers o capacity
        { d with unions := d.unions ++ more, unionBound := min d.unionBound bound } k' := by
  obtain ⟨unions, hmerge, hunions⟩ := h.union combines hother hfit
  refine ⟨_, ?_, hunions⟩
  simp only [Sketch.unionBytes, Lazy.union, HashSample.unionBytes, hread, hmerge]
  rfl

/-- Bytes that are refused leave what a sketch gathered as it was. -/
theorem Gathers.unionBytes_error (h : Gathers o capacity d k) {bs : Bytes} {e : QueryError}
    (hread : HashSample.ofBytes (α := α) bs = .error e) :
    ∃ k', Sketch.unionBytes k bs = .fail e k' ∧ Gathers o capacity d k' := by
  refine ⟨{ k with unioned := true, stale := true }, ?_, ?_⟩
  · simp only [Sketch.unionBytes, Lazy.union, HashSample.unionBytes, hread]
    rfl
  · exact { h with
      no_unions := fun hu => nomatch hu
      idle := fun hi => nomatch hi }

end Bytes

/-- A sketch that is reset has nothing. -/
theorem Gathers.reset (h : Gathers o capacity d k) : Gathers o capacity .none (Lazy.reset k) where
  blank := h.blank
  updates := sampleOf_clear h.updates.capacity_eq
  unions := sampleOf_clear h.unions.capacity_eq
  result := fun _ ht => nomatch ht
  no_result _ := ⟨rfl, rfl⟩
  no_updates _ := rfl
  no_unions _ := ⟨rfl, rfl⟩
  idle hi := nomatch hi

end Combining

/-! ## What was gathered, in any order -/

/-- A sketch has gathered items, in whatever order and wherever they lie. -/
def Gathered (o : Offering ρ α) (capacity : Nat) (items : List ρ) (bound : UInt64)
    (k : Sketch α) : Prop :=
  ∃ d, Gathers o capacity d k ∧ d.items.Perm items ∧ d.bound = bound

theorem gathered_new (capacity : Nat) :
    Gathered o capacity [] HashSample.noBound (Sketch.new capacity : Sketch α) :=
  ⟨.none, gathers_new capacity, .nil, min_noBound _⟩

variable [Combine α] {fits : ρ → Prop}

theorem Gathered.reset (h : Gathered o capacity items bound k) :
    Gathered o capacity [] HashSample.noBound (Lazy.reset k) := by
  obtain ⟨d, hd, -, -⟩ := h
  exact ⟨.none, hd.reset, .nil, min_noBound _⟩

/-- A read gives the sample of what was gathered and leaves it gathered. -/
theorem Gathered.read (lawful : o.Lawful fits) (h : Gathered o capacity items bound k)
    (hfit : ∀ x ∈ items, fits x) :
    ∃ t k', Sketch.result k = .done t k' ∧ SampleOf o capacity items bound t ∧
      Gathered o capacity items bound k' := by
  obtain ⟨d, hd, hp, rfl⟩ := h
  have hfit' : ∀ x ∈ d.items, fits x := fun x hx => hfit x (hp.mem_iff.1 hx)
  obtain ⟨t, k', hread, ht, hk'⟩ := hd.read lawful.toCombines hfit'
  refine ⟨t, k', hread, ht.perm lawful hfit' hp, _, hk', ?_, ?_⟩
  · rw [Spread.items_settled]
    exact hp
  · exact noBound_min _

/-- What is added is gathered. -/
theorem Gathered.add (lawful : o.Lawful fits) (h : Gathered o capacity items bound k) {x : ρ}
    (hfit : ∀ y ∈ items ++ [x], fits y) :
    ∃ kept k', Sketch.add k (o.hash x) (o.value x []) = .done kept k' ∧
      Gathered o capacity (items ++ [x]) bound k' := by
  obtain ⟨d, hd, hp, rfl⟩ := h
  have hfit' : ∀ y ∈ d.updates ++ [x], fits y := by
    intro y hy
    apply hfit y
    rw [List.mem_append] at hy ⊢
    exact hy.imp_left fun hy => hp.mem_iff.1 (List.mem_append_right _ hy)
  obtain ⟨kept, k', hadd, hk'⟩ := hd.add lawful.toCombines hfit'
  refine ⟨kept, k', hadd, _, hk', ?_, rfl⟩
  simp only [Spread.items] at hp ⊢
  rw [← List.append_assoc]
  exact hp.append_right [x]

section Bytes

variable [JsonForm α]

/-- What a sample given as bytes covers is gathered, and its bound counts from then on. -/
theorem Gathered.unionBytes (lawful : o.Lawful fits) (h : Gathered o capacity items bound k)
    {bs : Bytes} {used : Nat} (hread : HashSample.ofBytes bs = .ok (t, used))
    (hother : Covers o more bound' (max capacity 1) t) (hfit : ∀ y ∈ items ++ more, fits y) :
    ∃ k', Sketch.unionBytes k bs = .done used k' ∧
      Gathered o capacity (items ++ more) (min bound bound') k' := by
  obtain ⟨d, hd, hp, rfl⟩ := h
  have hfit' : ∀ y ∈ d.unions ++ more, fits y := by
    intro y hy
    apply hfit y
    rw [List.mem_append] at hy ⊢
    refine hy.imp_left fun hy => hp.mem_iff.1 ?_
    exact List.mem_append_left _ (List.mem_append_left _ hy)
  obtain ⟨k', hunion, hk'⟩ := hd.unionBytes lawful.toCombines hread hother hfit'
  refine ⟨k', hunion, _, hk', ?_, min_right_comm _ _ _⟩
  -- the new items stand before those of the result and the updates
  have hswap : (d.unions ++ more ++ d.result ++ d.updates).Perm (d.items ++ more) := by
    simp only [Spread.items, List.append_assoc]
    refine List.Perm.append_left _ ?_
    rw [← List.append_assoc d.result d.updates more]
    exact List.perm_append_comm
  exact hswap.trans (hp.append_right more)

/-- Bytes that are refused leave what was gathered. -/
theorem Gathered.unionBytes_error (h : Gathered o capacity items bound k) {bs : Bytes}
    {e : QueryError} (hread : HashSample.ofBytes (α := α) bs = .error e) :
    ∃ k', Sketch.unionBytes k bs = .fail e k' ∧ Gathered o capacity items bound k' := by
  obtain ⟨d, hd, hp, hbound⟩ := h
  obtain ⟨k', hunion, hk'⟩ := hd.unionBytes_error hread
  exact ⟨k', hunion, d, hk', hp, hbound⟩

end Bytes

end StreamQuery
