import StreamQuery.Proofs.Numeric.Rounding
import StreamQuery.Proofs.Sample.Contents
import StreamQuery.Sketch.Encoding
import StreamQuery.Sketch.Group
set_option autoImplicit false

/-!
# Samples in any state

What is true of a sample whatever was done to it: values added, other samples merged in, bytes read,
values refused on the way.  All hashes lie below the bound.  What is kept fits the capacity unless a
value refused another one after a merge had put in more than there is room for, since a merge trims
when it is through.  And the bound is a positive share of all hashes, by which the number of hashes
can be estimated, unless bytes with the bound zero were read.
-/

namespace StreamQuery

variable {α : Type}

namespace HashSample

variable {s t : HashSample α} {h x : UInt64} {a : α}

/-! ## Hashes of tables -/

/-- The hashes that a table has values under. -/
def hashesOf (t : Keyed UInt64 α) : Finset UInt64 := t.keys.toFinset

theorem mem_hashesOf {t : Keyed UInt64 α} : h ∈ hashesOf t ↔ (t.get? h).isSome = true := by
  rw [hashesOf, List.mem_toFinset, Keyed.mem_keys_iff]

theorem card_hashesOf (t : Keyed UInt64 α) : (hashesOf t).card = t.size := by
  rw [hashesOf, List.toFinset_card_of_nodup t.nodup_keys, Keyed.keys, List.length_map, Keyed.size]

/-- No more values are kept than there are hashes below the bound. -/
theorem retained_le_bound (hs : s.Bounded) : s.retained ≤ s.bound.toNat := by
  have hinjective : Set.InjOn UInt64.toNat (hashesOf s.entries : Set UInt64) :=
    fun _ _ _ _ heq => UInt64.toNat_inj.1 heq
  rw [retained, ← card_hashesOf, ← Finset.card_image_of_injOn hinjective]
  refine (Finset.card_le_card fun n hn => ?_).trans (Finset.card_range s.bound.toNat).le
  obtain ⟨x, hx, rfl⟩ := Finset.mem_image.1 hn
  obtain ⟨a, ha⟩ := Option.isSome_iff_exists.1 (mem_hashesOf.1 hx)
  exact Finset.mem_range.2 (UInt64.lt_iff_toNat_lt.1 (hs x a ha))

theorem hashesOf_insert (t : Keyed UInt64 α) (h : UInt64) (a : α) :
    hashesOf (t.insert h a) = insert h (hashesOf t) := by
  ext x
  rw [mem_hashesOf, Keyed.get?_insert, Finset.mem_insert, mem_hashesOf]
  by_cases hx : h = x
  · rw [if_pos (hx ▸ Keyed.compare_refl h)]
    exact ⟨fun _ => .inl hx.symm, fun _ => rfl⟩
  · rw [if_neg fun hc => hx (Std.LawfulEqCmp.eq_of_compare hc)]
    exact ⟨.inr, fun h => h.resolve_left fun heq => hx heq.symm⟩

theorem hashesOf_filter_lt (t : Keyed UInt64 α) (m : UInt64) :
    hashesOf (t.filter fun e => decide (e.1 < m)) = (hashesOf t).filter (· < m) := by
  ext x
  rw [mem_hashesOf, get?_filter_lt, Finset.mem_filter, mem_hashesOf]
  split
  · rename_i hx
    simp [hx]
  · rename_i hx
    simp [hx]

/-! ## Trimmed bounds -/

/-- The hash that becomes the bound is not the smallest one. -/
theorem bound_trim_ne_zero (hcap : 0 < s.capacity) (hs : s.bound ≠ 0) : s.trim.bound ≠ 0 := by
  unfold trim
  split
  · exact hs
  · rename_i hash b hsome
    obtain ⟨hlt, hkey⟩ := List.getElem?_eq_some_iff.1 hsome
    have hless := List.pairwise_iff_getElem.1 s.entries.ascending 0 s.capacity (by omega) hlt hcap
    rw [hkey, Std.compare_eq_lt] at hless
    rintro rfl
    exact UInt64.not_lt_zero hless

theorem bound_trim_le (hs : s.Bounded) : s.trim.bound ≤ s.bound := by
  unfold trim
  split
  · exact UInt64.le_refl _
  · rename_i hash b hsome
    exact UInt64.le_of_lt (Keyed.All.mem hs (List.mem_of_getElem? hsome))

variable [Combine α]

/-! ## Values that are refused -/

/-- A table holds a value that refuses the one of an entry. -/
def Refuses (t : Keyed UInt64 α) (e : UInt64 × α) : Prop :=
  ∃ p error, t.get? e.1 = some p ∧ (Combine.combine p e.2).1 = .error error

/-- Only the values at the hash matter. -/
theorem refuses_congr {t u : Keyed UInt64 α} {e : UInt64 × α} (h : t.get? e.1 = u.get? e.1) :
    Refuses t e ↔ Refuses u e := by
  simp only [Refuses, h]

/-- Absorbing a value fails exactly if it is refused.  Either way its hash is there afterwards, and
nothing happened at other hashes. -/
theorem absorb_step (t : Keyed UInt64 α) (e : UInt64 × α) :
    (Refuses t e ∧ ∃ error u, absorb t e.1 e.2 = .fail error u ∧ hashesOf u = hashesOf t) ∨
      (¬Refuses t e ∧ ∃ u, absorb t e.1 e.2 = .done () u ∧
        hashesOf u = insert e.1 (hashesOf t) ∧ ∀ x, e.1 ≠ x → u.get? x = t.get? x) := by
  have hother (b : α) (x : UInt64) (hx : e.1 ≠ x) : (t.insert e.1 b).get? x = t.get? x :=
    Keyed.get?_insert_of_ne t hx b
  unfold absorb Refuses
  split
  · rename_i p hp
    have hpresent : e.1 ∈ hashesOf t := by
      rw [mem_hashesOf, hp]
      rfl
    rcases hcombine : Combine.combine p e.2 with ⟨⟨error⟩ | ⟨⟨⟩⟩, b⟩
    · refine .inl ⟨⟨p, error, hp, by rw [hcombine]⟩, error, _, rfl, ?_⟩
      rw [hashesOf_insert, Finset.insert_eq_self.2 hpresent]
    · refine .inr ⟨?_, _, rfl, hashesOf_insert _ _ _, hother b⟩
      rintro ⟨p', error, hp', herror⟩
      cases hp.symm.trans hp'
      rw [hcombine] at herror
      cases herror
  · rename_i hnone
    refine .inr ⟨?_, _, rfl, hashesOf_insert _ _ _, hother e.2⟩
    rintro ⟨p, -, hp, -⟩
    cases hnone.symm.trans hp

/-- The hash of the first of the entries that is refused. -/
def StopsAtHash (t : Keyed UInt64 α) (entries : List (UInt64 × α)) (x : UInt64) : Prop :=
  (∃ e ∈ entries, e.1 = x ∧ Refuses t e) ∧ ∀ e ∈ entries, Refuses t e → x ≤ e.1

/-- Absorbing stops at the first value that is refused, if there is one. -/
theorem absorbAll_cases {t : Keyed UInt64 α} {entries : List (UInt64 × α)}
    (ascending : entries.Pairwise fun a b => compare a.1 b.1 = .lt) :
    (∃ u, absorbAll t entries = .done () u ∧ ∀ e ∈ entries, ¬Refuses t e) ∨
      ∃ error u x, absorbAll t entries = .fail error u ∧ StopsAtHash t entries x ∧
        hashesOf u = hashesOf t ∪ (entries.map (·.1)).toFinset.filter (· < x) := by
  induction entries generalizing t with
  | nil => exact .inl ⟨t, rfl, nofun⟩
  | cons e rest ih =>
    rw [List.pairwise_cons] at ascending
    have hlater : ∀ e' ∈ rest, e.1 < e'.1 := fun e' he' => Std.compare_eq_lt.1 (ascending.1 e' he')
    have hall : absorbAll t (e :: rest) = (absorb t e.1 e.2).andThen fun _ t => absorbAll t rest :=
      rfl
    rcases absorb_step t e with
      ⟨hrefuses, error, u, habsorb, hhashes⟩ | ⟨haccepts, t', habsorb, hhashes, hother⟩
    · refine .inr ⟨error, u, e.1, hall.trans (by rw [habsorb]; rfl),
        ⟨⟨e, ?_, rfl, hrefuses⟩, ?_⟩, ?_⟩
      · exact List.mem_cons_self
      · intro e' he' _
        rcases List.mem_cons.1 he' with rfl | he'
        · exact UInt64.le_refl _
        · exact UInt64.le_of_lt (hlater e' he')
      · have hnone : ((e :: rest).map (·.1)).toFinset.filter (· < e.1) = ∅ := by
          ext x
          simp
          grind
        rw [hhashes, hnone, Finset.union_empty]
    · have hsame : ∀ e' ∈ rest, (Refuses t' e' ↔ Refuses t e') := fun e' he' =>
        refuses_congr (hother e'.1 fun heq => UInt64.lt_irrefl e.1 (heq ▸ hlater e' he'))
      have hrest : absorbAll t (e :: rest) = absorbAll t' rest := hall.trans (by rw [habsorb]; rfl)
      rcases ih ascending.2 (t := t') with ⟨u, hu, hnone⟩ | ⟨error, u, x, hu, hstops, hmem⟩
      · refine .inl ⟨u, hrest.trans hu, ?_⟩
        grind
      · obtain ⟨⟨e', he', rfl, hrefuses⟩, hleast⟩ := hstops
        refine .inr ⟨error, u, e'.1, hrest.trans hu, ⟨⟨e', ?_, rfl, ?_⟩, ?_⟩, ?_⟩
        · exact List.mem_cons_of_mem _ he'
        · exact (hsame e' he').1 hrefuses
        · grind
        · have hfirst : e.1 < e'.1 := hlater e' he'
          ext x
          rw [hmem, hhashes]
          simp
          grind

/-! ## Merges that stop -/

/-- A value of a sample is refused when it is merged in. -/
def RefusedAt (s t : HashSample α) (x : UInt64) : Prop :=
  x < min s.bound t.bound ∧ ∃ p a error, s.get? x = some p ∧ t.get? x = some a ∧
    (Combine.combine p a).1 = .error error

/-- A sample that is merged in puts in more than there is room for before the first value that is
refused. -/
def OverfilledBy (s t : HashSample α) : Prop :=
  ∃ x, s.RefusedAt t x ∧ (∀ y, s.RefusedAt t y → x ≤ y) ∧
    s.capacity < ((hashesOf s.entries).filter (· < min s.bound t.bound)
      ∪ (hashesOf t.entries).filter (· < x)).card

theorem refusedAt_iff (s t : HashSample α) (x : UInt64) :
    s.RefusedAt t x ↔ ∃ e ∈ (t.entries.filter fun e => decide (e.1 < min s.bound t.bound)).entries,
      e.1 = x ∧ Refuses (s.entries.filter fun e => decide (e.1 < min s.bound t.bound)) e := by
  constructor
  · rintro ⟨hx, p, a, error, hp, ha, herror⟩
    refine ⟨(x, a), Keyed.get?_eq_some_iff.1 ?_, rfl, p, error, ?_, herror⟩
    · rw [get?_filter_lt, if_pos hx]
      exact ha
    · rw [get?_filter_lt, if_pos hx]
      exact hp
  · rintro ⟨⟨x, a⟩, hmem, rfl, p, error, hp, herror⟩
    have ha := Keyed.get?_eq_some_iff.2 hmem
    rw [get?_filter_lt] at ha hp
    split at ha
    · rename_i hx
      rw [if_pos hx] at hp
      exact ⟨hx, p, a, error, hp, ha, herror⟩
    · cases ha

/-- A merge is through and leaves no more than there is room for, or it stops at the first value
that is refused and leaves what it has put in so far. -/
theorem merge_cases (s t : HashSample α) :
    (∃ u, s.merge t = .done () u ∧ u.Fits ∧ ∀ x, ¬s.RefusedAt t x) ∨
      ∃ error u x, s.merge t = .fail error u ∧ s.RefusedAt t x ∧ (∀ y, s.RefusedAt t y → x ≤ y) ∧
        u.retained = ((hashesOf s.entries).filter (· < min s.bound t.bound)
          ∪ (hashesOf t.entries).filter (· < x)).card := by
  have hmerge : s.merge t = ((absorbAll
      (s.entries.filter fun e => decide (e.1 < min s.bound t.bound))
      (t.entries.filter fun e => decide (e.1 < min s.bound t.bound)).entries).within
        fun entries => (⟨s.capacity, min s.bound t.bound, entries⟩ : HashSample α)).andThen
      fun _ s => .done () s.trim := rfl
  rcases absorbAll_cases (t := s.entries.filter fun e => decide (e.1 < min s.bound t.bound))
      (t.entries.filter fun e => decide (e.1 < min s.bound t.bound)).ascending with
    ⟨entries, habsorb, haccepts⟩ | ⟨error, entries, x, habsorb, ⟨hrefused, hleast⟩, hhashes⟩
  · refine .inl ⟨_, hmerge.trans (by rw [habsorb]; rfl), fits_trim _, fun x hx => ?_⟩
    obtain ⟨e, he, -, hrefuses⟩ := (refusedAt_iff s t x).1 hx
    exact haccepts e he hrefuses
  · have hx : s.RefusedAt t x := (refusedAt_iff s t x).2 hrefused
    refine .inr ⟨error, _, x, hmerge.trans (by rw [habsorb]; rfl), hx, fun y hy => ?_, ?_⟩
    · obtain ⟨e, he, rfl, hrefuses⟩ := (refusedAt_iff s t y).1 hy
      exact hleast e he hrefuses
    · have hbelow : (hashesOf (t.entries.filter fun e =>
          decide (e.1 < min s.bound t.bound))).filter (· < x)
            = (hashesOf t.entries).filter (· < x) := by
        rw [hashesOf_filter_lt, Finset.filter_filter]
        exact Finset.filter_congr fun y _ => and_iff_right_of_imp fun hy => UInt64.lt_trans hy hx.1
      show entries.size = _
      rw [← card_hashesOf, hhashes, hashesOf_filter_lt]
      exact congrArg (fun hashes : Finset UInt64 =>
        ((hashesOf s.entries).filter (· < min s.bound t.bound) ∪ hashes).card) hbelow

theorem fits_merge_iff (s t : HashSample α) : (s.merge t).2.Fits ↔ ¬s.OverfilledBy t := by
  rcases merge_cases s t with ⟨u, hmerge, hfits, hnone⟩ | ⟨error, u, x, hmerge, hx, hleast, hsize⟩
  · rw [hmerge]
    exact ⟨fun _ ⟨x, hx, _⟩ => hnone x hx, fun _ => hfits⟩
  · have hcap : u.capacity = s.capacity := by
      have := capacity_merge s t
      rwa [hmerge] at this
    rw [hmerge]
    show u.retained ≤ u.capacity ↔ _
    rw [hsize, hcap, ← not_lt, not_iff_not]
    refine ⟨fun hfull => ⟨x, hx, hleast, hfull⟩, ?_⟩
    rintro ⟨y, hy, hleast', hfull⟩
    rw [UInt64.le_antisymm (hleast y hy) (hleast' x hx)]
    exact hfull

theorem fits_add_iff (s : HashSample α) (hash : UInt64) (a : α) :
    (s.add hash a).2.Fits ↔ ¬(¬s.Fits ∧ (s.bound ≤ hash ∨ Refuses s.entries (hash, a))) := by
  unfold add
  split
  · rename_i hle
    simp [hle, Transition.done]
  · rename_i hlt
    rcases absorb_step s.entries (hash, a) with
      ⟨hrefuses, error, u, habsorb, hhashes⟩ | ⟨haccepts, u, habsorb, -⟩
    · rw [habsorb]
      have hsize : u.size = s.retained := by
        rw [← card_hashesOf, hhashes, card_hashesOf, retained]
      show u.size ≤ s.capacity ↔ _
      rw [hsize]
      simp [hrefuses, Fits]
    · rw [habsorb]
      exact ⟨fun _ h => h.2.elim hlt haccepts, fun _ => fits_trim _⟩

/-! ## Bounds -/

theorem bound_add_eq_zero_iff (hcap : 0 < s.capacity) (hash : UInt64) (a : α) :
    (s.add hash a).2.bound = 0 ↔ s.bound = 0 := by
  unfold add
  split
  · rfl
  · rename_i hlt
    refine ⟨fun hzero => ?_, fun hzero => absurd (hzero ▸ UInt64.zero_le) hlt⟩
    by_contra hne
    refine (Transition.andThen_keeps (Q := fun t : HashSample α => t.bound ≠ 0 ∧ 0 < t.capacity)
      ?_ fun _ t ht => ?_).1 hzero
    · exact ⟨hne, hcap⟩
    · exact ⟨bound_trim_ne_zero ht.2 ht.1, (capacity_trim t).symm ▸ ht.2⟩

theorem bound_merge_le (s t : HashSample α) : (s.merge t).2.bound ≤ min s.bound t.bound := by
  refine (Transition.andThen_keeps
    (Q := fun u : HashSample α => u.Bounded ∧ u.bound ≤ min s.bound t.bound) ?_ fun _ u hu => ?_).2
  · exact ⟨all_absorbAll_below s t, UInt64.le_refl _⟩
  · exact ⟨hu.1.trim, UInt64.le_trans (bound_trim_le hu.1) hu.2⟩

theorem bound_merge_eq_zero_iff (hcap : 0 < s.capacity) (t : HashSample α) :
    (s.merge t).2.bound = 0 ↔ s.bound = 0 ∨ t.bound = 0 := by
  have hmin : min s.bound t.bound = 0 ↔ s.bound = 0 ∨ t.bound = 0 := by
    constructor
    · intro hzero
      exact (Std.min_eq_or (a := s.bound) (b := t.bound)).imp
        (fun h => h.symm.trans hzero) fun h => h.symm.trans hzero
    · rintro (hzero | hzero)
      · exact UInt64.le_antisymm (hzero ▸ Std.min_le_left) UInt64.zero_le
      · exact UInt64.le_antisymm (hzero ▸ Std.min_le_right) UInt64.zero_le
  rw [← hmin]
  constructor
  · intro hzero
    by_contra hne
    refine (Transition.andThen_keeps (Q := fun u : HashSample α => u.bound ≠ 0 ∧ 0 < u.capacity)
      ?_ fun _ u hu => ?_).1 hzero
    · exact ⟨hne, hcap⟩
    · exact ⟨bound_trim_ne_zero hu.2 hu.1, (capacity_trim u).symm ▸ hu.2⟩
  · intro hzero
    exact UInt64.le_antisymm (hzero ▸ bound_merge_le s t) UInt64.zero_le

/-! ## Estimates -/

omit [Combine α] in
theorem isEstimating_of_bound_zero (hzero : s.bound = 0) : s.isEstimating = true := by
  rw [isEstimating, hzero]
  decide

omit [Combine α] in
theorem toNat_bound_pos (hs : s.bound ≠ 0) : 0 < s.bound.toNat :=
  Nat.pos_of_ne_zero fun hzero => hs (UInt64.toNat_inj.1 hzero)

omit [Combine α] in
/-- Of all hashes a positive share is admitted, unless the bound is zero. -/
theorem fraction_mem_iff (s : HashSample α) : s.bound ≠ 0 ↔
    ∃ q, s.fraction.datum.quantity = .finite q ∧ 0 < q ∧ q ≤ 1 := by
  constructor
  · intro hpos
    unfold fraction
    split
    · have hbound := toNat_bound_pos hpos
      obtain ⟨m, e, -, -, -, hspos, hsle, -⟩ := Numeric.exists_significant hbound s.bound.toNat_lt
      have hspos' : (0 : ℚ) < Numeric.significant s.bound.toNat := by exact_mod_cast hspos
      refine ⟨_, Numeric.quantity_significant_div hbound s.bound.toNat_lt, by positivity, ?_⟩
      rw [div_le_one (by norm_num)]
      exact_mod_cast hsle
    · obtain ⟨m, e, -, hdenote, hvalue, -, -, hexact⟩ :=
        Numeric.exists_significant Nat.one_pos (by decide)
      have hone : (Numeric.doubleOfInt 1).datum = .finite false m e := hdenote
      rw [hexact (by decide), Nat.cast_one] at hvalue
      refine ⟨1, ?_, one_pos, le_rfl⟩
      rw [hone, Numeric.Datum.quantity, hvalue]
      rfl
  · rintro ⟨q, hq, hpos, -⟩ hzero
    have hnone : s.fraction.datum.quantity = .finite 0 := by
      rw [fraction, if_pos (isEstimating_of_bound_zero hzero), hzero, UInt64.toNat_zero,
        Numeric.significant_zero, Numeric.doubleOfRatio, if_neg (by decide),
        Numeric.datum_nearest_zero, Numeric.Datum.quantity, Nat.cast_zero, zero_mul]
      rfl
    cases hq.symm.trans hnone
    exact lt_irrefl _ hpos

omit [Combine α] in
/-- The estimate is a finite number, unless the bound is zero. -/
theorem estimate_finite_iff (hs : s.Bounded) : s.bound ≠ 0 ↔
    ∃ q, s.estimate.datum.quantity = .finite q := by
  have hretained : s.retained < 2 ^ 64 := (retained_le_bound hs).trans_lt s.bound.toNat_lt
  constructor
  · intro hpos
    unfold estimate
    split
    · obtain ⟨m, e, -, -, -, hspos, hsle, -⟩ :=
        Numeric.exists_significant (toNat_bound_pos hpos) s.bound.toNat_lt
      obtain ⟨m, e, hdenote⟩ := Numeric.exists_datum_nearest hspos
        (show s.retained * 2 ^ 64 < 2 ^ 200 by omega) (by omega)
      rw [Numeric.doubleOfRatio, if_neg hspos.ne', hdenote]
      exact ⟨_, rfl⟩
    · obtain ⟨m, e, hdenote⟩ :=
        Numeric.exists_datum_nearest Nat.one_pos (hretained.trans (by norm_num)) (by decide)
      rw [Numeric.doubleOfInt_natCast, hdenote]
      exact ⟨_, rfl⟩
  · rintro ⟨q, hq⟩ hzero
    have hempty : s.retained = 0 := by
      refine List.length_eq_zero_iff.2 (List.eq_nil_iff_forall_not_mem.2 fun e he => ?_)
      have hbelow : e.1 < s.bound := Keyed.All.mem hs he
      rw [hzero] at hbelow
      exact UInt64.not_lt_zero hbelow
    have hnan : s.estimate.datum = .nan true := by
      rw [estimate, if_pos (isEstimating_of_bound_zero hzero), hzero, hempty, UInt64.toNat_zero,
        Numeric.significant_zero]
      decide
    rw [hnan] at hq
    cases hq

/-! ## Histories -/

/-- What was done to a sample since it was new.  A sample that is merged in has a history of its
own; the bytes that are read are any. -/
inductive History (α : Type) where
  | new (capacity : Nat)
  | add (before : History α) (hash : UInt64) (a : α)
  | merge (before other : History α)
  | union (before : History α) (bs : Bytes)
  | clear (before : History α)

namespace History

variable [JsonForm α]

/-- The sample with a history, of which each step may have failed. -/
def sample : History α → HashSample α
  | new capacity => HashSample.new capacity
  | add before hash a => (before.sample.add hash a).2
  | merge before other => (before.sample.merge other.sample).2
  | union before bs => (before.sample.unionBytes bs).2
  | clear before => before.sample.clear

/-- Bytes with the bound zero were read since the sample was last cleared, by it or by one that was
merged in. -/
def ReadsZero : History α → Prop
  | new _ => False
  | add before _ _ => before.ReadsZero
  | merge before other => before.ReadsZero ∨ other.ReadsZero
  | union before bs =>
    before.ReadsZero ∨ ∃ t used, ofBytes (α := α) bs = .ok (t, used) ∧ t.bound = 0
  | clear _ => False

/-- The last merge stopped at a value that was refused after it had put in more than there is room
for.  A value that is ignored or refused since then does not mend that, nor do bytes that cannot be
read. -/
def Overfilled : History α → Prop
  | new _ => False
  | add before hash a =>
    before.Overfilled ∧ (before.sample.bound ≤ hash ∨ Refuses before.sample.entries (hash, a))
  | merge before other => before.sample.OverfilledBy other.sample
  | union before bs =>
    match ofBytes bs with
    | .ok (t, _) => before.sample.OverfilledBy t
    | .error _ => before.Overfilled
  | clear _ => False

theorem capacity_sample_pos (history : History α) : 0 < history.sample.capacity := by
  induction history with
  | new capacity => exact Nat.lt_of_lt_of_le Nat.one_pos (Nat.le_max_right _ _)
  | add before hash a ih => rwa [sample, capacity_add]
  | merge before other ih _ => rwa [sample, capacity_merge]
  | union before bs ih =>
    rw [sample, unionBytes]
    split
    · show 0 < (before.sample.merge _).2.capacity
      rwa [capacity_merge]
    · exact ih
  | clear before ih => exact ih

theorem bounded_sample (history : History α) : history.sample.Bounded := by
  induction history with
  | new capacity => exact Keyed.All.empty
  | add before hash a ih => exact ih.add hash a
  | merge before other _ _ => exact bounded_merge _ _
  | union before bs ih =>
    rw [sample, unionBytes]
    split
    · exact bounded_merge _ _
    · exact ih
  | clear before _ => exact Keyed.All.empty

theorem fits_sample_iff (history : History α) : history.sample.Fits ↔ ¬history.Overfilled := by
  induction history with
  | new capacity => exact ⟨fun _ => not_false, fun _ => Nat.zero_le _⟩
  | add before hash a ih => rw [sample, fits_add_iff, ih, not_not, Overfilled]
  | merge before other _ _ => exact fits_merge_iff _ _
  | union before bs ih =>
    rw [sample, unionBytes, Overfilled]
    cases ofBytes (α := α) bs with
    | ok read => exact fits_merge_iff _ _
    | error e => exact ih
  | clear before _ => exact ⟨fun _ => not_false, fun _ => Nat.zero_le _⟩

theorem bound_sample_eq_zero_iff (history : History α) :
    history.sample.bound = 0 ↔ history.ReadsZero := by
  have hnoBound : noBound ≠ 0 := by decide
  induction history with
  | new capacity => exact ⟨hnoBound, False.elim⟩
  | add before hash a ih =>
    exact (bound_add_eq_zero_iff before.capacity_sample_pos hash a).trans ih
  | merge before other ih ih' =>
    exact (bound_merge_eq_zero_iff before.capacity_sample_pos _).trans (or_congr ih ih')
  | union before bs ih =>
    rw [sample, unionBytes, ReadsZero]
    cases ofBytes (α := α) bs with
    | ok read =>
      refine (bound_merge_eq_zero_iff before.capacity_sample_pos _).trans (or_congr ih ?_)
      refine ⟨fun h => ⟨_, _, rfl, h⟩, ?_⟩
      rintro ⟨t, used, hread, h⟩
      cases hread
      exact h
    | error e =>
      refine ⟨fun h => .inl (ih.1 h), ?_⟩
      rintro (h | ⟨t, used, hread, -⟩)
      · exact ih.2 h
      · cases hread
  | clear before _ => exact ⟨hnoBound, False.elim⟩

/-- What is true of every sample.  All its hashes lie below its bound, always.  It keeps no more
than its capacity, exactly unless a merge stopped at a value that was refused when more had been put
in.  Its bound is not zero, so that a positive share of all hashes is admitted and the estimate is
finite, exactly unless bytes with the bound zero were read. -/
theorem sample_invariant (history : History α) :
    (∀ hash a, history.sample.get? hash = some a → hash < history.sample.bound) ∧
      (history.sample.retained ≤ history.sample.capacity ↔ ¬history.Overfilled) ∧
      (history.sample.bound ≠ 0 ↔ ¬history.ReadsZero) ∧
      ((∃ q, history.sample.fraction.datum.quantity = .finite q ∧
        0 < q ∧ q ≤ 1) ↔ ¬history.ReadsZero) ∧
      ((∃ q, history.sample.estimate.datum.quantity = .finite q) ↔
        ¬history.ReadsZero) := by
  have hbound : history.sample.bound ≠ 0 ↔ ¬history.ReadsZero :=
    not_congr history.bound_sample_eq_zero_iff
  refine ⟨history.bounded_sample, history.fits_sample_iff, hbound, ?_, ?_⟩
  · rw [← fraction_mem_iff, hbound]
  · rw [← estimate_finite_iff history.bounded_sample, hbound]

end History

/-! ## Two samples that are not as they should be -/

/-- A sample of hashes that has read bytes with the bound zero. -/
def closedSample : History Unit :=
  let sent : HashSample Unit := ⟨16, 0, .empty⟩
  .union (.new 16) (Bytes.ofNat 4 sent.toJson.bytes.length ++ sent.toJson.bytes)

/-- The group of all records, with their number. -/
def countedGroup (count : Value) : Group := ⟨[], ⟨[⟨⟨.count, none, some "n"⟩, count⟩]⟩⟩

/-- A sample for one group into which two are merged, of which the second one is refused: a text
cannot be added to a number. -/
def stoppedMerge : History Group :=
  .merge (.add (.new 1) 5 (countedGroup (.long 1)))
    (.add (.add (.new 2) 3 (countedGroup (.long 1))) 5 (countedGroup (.string "x")))

/-- The first sample admits no hash at all, and what it estimates is not a number; the second one
keeps two groups where there is room for one. -/
theorem closedSample_stoppedMerge :
    closedSample.sample.bound = 0 ∧
      closedSample.sample.fraction.datum.quantity = .finite 0 ∧
      closedSample.sample.estimate.datum.quantity = .nan ∧
      stoppedMerge.sample.capacity = 1 ∧ stoppedMerge.sample.retained = 2 := by
  refine ⟨by decide +kernel, ?_, ?_, by decide +kernel, by decide +kernel⟩
  · have hfraction : closedSample.sample.fraction.datum
        = .finite false 0 (-1074) := by decide +kernel
    rw [hfraction, Numeric.Datum.quantity, Nat.cast_zero, zero_mul]
    rfl
  · have hestimate : closedSample.sample.estimate.datum = .nan true := by decide +kernel
    rw [hestimate]
    rfl

end HashSample

end StreamQuery
