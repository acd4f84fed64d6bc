import StreamQuery.Aggregate.Reduction
import StreamQuery.Proofs.Value.Ordering
set_option autoImplicit false

/-!
# Least and greatest numbers

A measure that takes the least or the greatest number finds it in any order of the numbers, and from
the parts of any split, as long as no number tells two others apart that are merged by rounding
(`extremes_regroup_iff`).  The step is that the extremes of two parts reduce to an extreme of both
(`IsExtreme.reduce`); a fold is many such steps with one number as the second part.
-/

namespace StreamQuery

namespace Measure

open Value

/-- Folds the value of a field into the running value. -/
def foldIn (m : Measure) (current v : Value) : Outcome Value := do
  match ← m.contribution v with
  | some c => m.reduce current c
  | none => .ok current

/-- The running value after the values of a field in some records. -/
def foldValues (m : Measure) (vs : List Value) : Outcome Value := vs.foldlM m.foldIn m.initial

/-- The measures that take the least or the greatest number. -/
def TakesExtreme (m : Measure) : Prop := m = .min ∨ m = .max

/-- How a number compares to the running value that it replaces. -/
def side : Measure → Ordering
  | min => .lt
  | _ => .gt

/-- A number is not further out than another one. -/
def NotPassed (m : Measure) (v r : Value) : Prop := ∃ o, v.compare r = .ok o ∧ o ≠ m.side

/-- One of some numbers, further out than which there is none. -/
structure IsExtreme (m : Measure) (vs : List Value) (r : Value) : Prop where
  mem : r ∈ vs
  notPassed : ∀ v ∈ vs, m.NotPassed v r

/-- The fold of some numbers gives an extreme one, in any order of them an equal one, and from the
parts of any split of them an equal one as well. -/
def FindsExtreme (m : Measure) (vs : List Value) : Prop :=
  ∃ r, m.foldValues vs = .ok r ∧ m.IsExtreme vs r ∧
    (∀ ws, ws.Perm vs → ∃ r', m.foldValues ws = .ok r' ∧ r'.equals r = true) ∧
    ∀ xs ys, (xs ++ ys).Perm vs → ∃ r₁ r₂ r', m.foldValues xs = .ok r₁ ∧
      m.foldValues ys = .ok r₂ ∧ m.reduce r₁ r₂ = .ok r' ∧ r'.equals r = true

variable {m : Measure} {a b c v w r r' : Value} {vs ws xs ys : List Value} {o : Ordering}

/-! ## Single steps -/

section Steps

variable (hm : m.TakesExtreme)
include hm

omit hm in
theorem reduce_null_left (m : Measure) (v : Value) : m.reduce .null v = .ok v := by
  cases v <;> rfl

theorem TakesExtreme.initial : m.initial = .null := by
  rcases hm with rfl | rfl <;> rfl

theorem TakesExtreme.side_ne_eq : m.side ≠ .eq := by
  rcases hm with rfl | rfl <;> decide

/-- A number replaces the running value if it is further out. -/
theorem TakesExtreme.reduce (hv : v.isNumeric = true) (hw : w.isNumeric = true)
    (h : w.compare v = .ok o) : m.reduce v w = .ok (if o = m.side then w else v) := by
  rcases hm with rfl | rfl <;>
    · simp only [Measure.reduce, isNull_of_isNumeric hv, isNull_of_isNumeric hw, h, Except.map]
      rfl

/-- A number contributes itself. -/
theorem TakesExtreme.foldIn (hv : v.isNumeric = true) (w : Value) :
    m.foldIn w v = m.reduce w v := by
  rcases hm with rfl | rfl <;> cases v <;> first | rfl | cases hv

theorem TakesExtreme.foldValues_append_singleton (hv : v.isNumeric = true)
    (h : m.foldValues vs = .ok w) : m.foldValues (vs ++ [v]) = m.reduce w v := by
  rw [foldValues, List.foldlM_append, ← foldValues, h]
  exact (bind_pure _).trans (hm.foldIn hv w)

end Steps

/-! ## Numbers that are not told apart -/

/-- Numbers none of which tells two others apart that are merged. -/
structure Consistent (values : Value → Prop) : Prop where
  isNumeric : ∀ {v}, values v → v.isNumeric = true
  not_tellsApart : ∀ {a b c}, values a → values b → values c → ¬ TellsApart c a b

variable {values : Value → Prop}

theorem Consistent.not_parted (h : Consistent values) (ha : values a) (hb : values b)
    (hc : values c) : ¬ Parted a b c := by
  rintro (hapart | hapart | hapart)
  · exact h.not_tellsApart ha hb hc hapart
  · exact h.not_tellsApart hb hc ha hapart
  · exact h.not_tellsApart ha hc hb hapart

theorem NotPassed.refl (hm : m.TakesExtreme) (hv : v.isNumeric = true) : m.NotPassed v v :=
  ⟨.eq, (compare_eq_ok_eq_iff hv hv).2 (.inl ⟨rfl, rfl⟩), hm.side_ne_eq.symm⟩

/-- What is passed passes. -/
theorem notPassed_of_swap (hm : m.TakesExtreme) (hv : v.isNumeric = true)
    (hw : w.isNumeric = true) (h : w.compare v = .ok o) (ho : o = m.side) : m.NotPassed v w := by
  refine ⟨o.swap, compare_swap hw hv h, ?_⟩
  rw [ho]
  rcases hm with rfl | rfl <;> decide

/-- Numbers that do not pass each other are equal. -/
theorem NotPassed.antisymm (hm : m.TakesExtreme) (hv : v.isNumeric = true)
    (hw : w.isNumeric = true) (h : m.NotPassed v w) (h' : m.NotPassed w v) : v.equals w = true := by
  obtain ⟨o, hcompare, ho⟩ := h
  obtain ⟨o', hcompare', ho'⟩ := h'
  obtain rfl := Except.ok.inj (hcompare'.symm.trans (compare_swap hv hw hcompare))
  rw [equals_iff_compare_eq hv, hcompare]
  rcases hm with rfl | rfl <;> cases o <;> first | rfl | exact absurd rfl ho | exact absurd rfl ho'

/-- Passing carries over where nothing is told apart. -/
theorem NotPassed.trans (hm : m.TakesExtreme) (hvalues : Consistent values) (ha : values a)
    (hb : values b) (hc : values c) (hab : m.NotPassed a b) (hbc : m.NotPassed b c) :
    m.NotPassed a c := by
  have hna := hvalues.isNumeric ha
  have hnb := hvalues.isNumeric hb
  have hnc := hvalues.isNumeric hc
  obtain ⟨o, hcompare, ho⟩ := hab
  obtain ⟨o', hcompare', ho'⟩ := hbc
  rcases hm with rfl | rfl
  · -- the least number: all comparisons the other way round
    have hca := compare_of_not_parted hnc hnb hna (compare_swap hnb hnc hcompare')
      (compare_swap hna hnb hcompare) (swap_ne_gt ho') (swap_ne_gt ho)
      (hvalues.not_parted hc hb ha)
    exact ⟨_, compare_swap hnc hna hca,
      swap_ne_lt (then_ne_gt (swap_ne_gt ho') (swap_ne_gt ho))⟩
  · exact ⟨_, compare_of_not_parted hna hnb hnc hcompare hcompare' ho ho'
      (hvalues.not_parted ha hb hc), then_ne_gt ho ho'⟩

/-! ## Extremes of parts -/

section Parts

variable (hm : m.TakesExtreme) (hvalues : Consistent values)
include hm hvalues

/-- The extremes of two parts reduce to an extreme of both. -/
theorem IsExtreme.reduce (hxs : ∀ v ∈ xs, values v) (hys : ∀ v ∈ ys, values v)
    (h : m.IsExtreme xs v) (h' : m.IsExtreme ys w) :
    ∃ r, m.reduce v w = .ok r ∧ m.IsExtreme (xs ++ ys) r := by
  have hv := hxs v h.mem
  have hw := hys w h'.mem
  have hnv := hvalues.isNumeric hv
  have hnw := hvalues.isNumeric hw
  obtain ⟨o, ho⟩ := exists_compare hnw hnv
  refine ⟨_, hm.reduce hnv hnw ho, ?_⟩
  split
  · rename_i hside
    -- the second extreme passes the first one, and so all that the first one is not passed by
    have hpasses := notPassed_of_swap hm hnv hnw ho hside
    refine ⟨List.mem_append_right xs h'.mem, fun u hu => ?_⟩
    rcases List.mem_append.1 hu with hu | hu
    · exact (h.notPassed u hu).trans hm hvalues (hxs u hu) hv hw hpasses
    · exact h'.notPassed u hu
  · rename_i hside
    refine ⟨List.mem_append_left ys h.mem, fun u hu => ?_⟩
    rcases List.mem_append.1 hu with hu | hu
    · exact h.notPassed u hu
    · exact (h'.notPassed u hu).trans hm hvalues (hys u hu) hw hv ⟨o, ho, hside⟩

/-- A fold finds an extreme. -/
theorem exists_isExtreme_foldValues (hne : vs ≠ []) (hvs : ∀ v ∈ vs, values v) :
    ∃ r, m.foldValues vs = .ok r ∧ m.IsExtreme vs r := by
  induction vs using List.reverseRecOn with
  | nil => exact absurd rfl hne
  | append_singleton vs v ih =>
    have hv : values v := hvs v (by simp)
    have hnv := hvalues.isNumeric hv
    have hlast : m.IsExtreme [v] v :=
      ⟨List.mem_singleton_self v, fun u hu => by
        rw [List.mem_singleton.1 hu]
        exact .refl hm hnv⟩
    by_cases hempty : vs = []
    · subst hempty
      refine ⟨v, ?_, hlast⟩
      rw [hm.foldValues_append_singleton hnv rfl, hm.initial, reduce_null_left]
    · have hinit : ∀ u ∈ vs, values u := fun u hu => hvs u (List.mem_append_left _ hu)
      obtain ⟨w, hfold, hw⟩ := ih hempty hinit
      rw [hm.foldValues_append_singleton hnv hfold]
      exact hw.reduce hm hvalues hinit (fun u hu => List.mem_singleton.1 hu ▸ hv) hlast

/-- Extremes of the same numbers are equal. -/
theorem IsExtreme.equals (hvs : ∀ v ∈ vs, values v) (hmem : ∀ v, v ∈ ws ↔ v ∈ vs)
    (h : m.IsExtreme ws w) (h' : m.IsExtreme vs v) : w.equals v = true := by
  have hw := (hmem w).1 h.mem
  exact NotPassed.antisymm hm (hvalues.isNumeric (hvs w hw)) (hvalues.isNumeric (hvs v h'.mem))
    (h'.notPassed w hw) (h.notPassed v ((hmem v).2 h'.mem))

/-- The folds of two parts reduce to an extreme of both. -/
theorem exists_isExtreme_reduce (hne : xs ++ ys ≠ []) (hall : ∀ v ∈ xs ++ ys, values v) :
    ∃ r₁ r₂ r, m.foldValues xs = .ok r₁ ∧ m.foldValues ys = .ok r₂ ∧ m.reduce r₁ r₂ = .ok r ∧
      m.IsExtreme (xs ++ ys) r := by
  have hxs : ∀ v ∈ xs, values v := fun v hv => hall v (List.mem_append_left _ hv)
  have hys : ∀ v ∈ ys, values v := fun v hv => hall v (List.mem_append_right _ hv)
  by_cases hleft : xs = []
  · subst hleft
    obtain ⟨r, hfold, hr⟩ := exists_isExtreme_foldValues hm hvalues hne hall
    exact ⟨m.initial, r, r, rfl, hfold, by rw [hm.initial, reduce_null_left], hr⟩
  · obtain ⟨r₁, hfold, hr₁⟩ := exists_isExtreme_foldValues hm hvalues hleft hxs
    by_cases hright : ys = []
    · subst hright
      refine ⟨r₁, m.initial, r₁, hfold, rfl, by rw [hm.initial]; rfl, ?_⟩
      rwa [List.append_nil]
    · obtain ⟨r₂, hfold', hr₂⟩ := exists_isExtreme_foldValues hm hvalues hright hys
      obtain ⟨r, hreduce, hr⟩ := hr₁.reduce hm hvalues hxs hys hr₂
      exact ⟨r₁, r₂, r, hfold, hfold', hreduce, hr⟩

/-- Where nothing is told apart, extremes are found in any order and from any parts. -/
theorem findsExtreme_of_consistent (hne : vs ≠ []) (hvs : ∀ v ∈ vs, values v) :
    m.FindsExtreme vs := by
  obtain ⟨r, hfold, hr⟩ := exists_isExtreme_foldValues hm hvalues hne hvs
  refine ⟨r, hfold, hr, ?_, ?_⟩
  · intro ws hperm
    obtain ⟨r', hfold', hr'⟩ := exists_isExtreme_foldValues hm hvalues
      (fun hempty => hne (hempty ▸ hperm).symm.eq_nil) fun v hv => hvs v (hperm.mem_iff.1 hv)
    exact ⟨r', hfold', hr'.equals hm hvalues hvs (fun _ => hperm.mem_iff) hr⟩
  · intro xs ys hperm
    obtain ⟨r₁, r₂, r', hleft, hright, hreduce, hr'⟩ := exists_isExtreme_reduce hm hvalues
      (fun hempty => hne (hempty ▸ hperm).symm.eq_nil) fun v hv => hvs v (hperm.mem_iff.1 hv)
    exact ⟨r₁, r₂, r', hleft, hright, hreduce,
      hr'.equals hm hvalues hvs (fun _ => hperm.mem_iff) hr⟩

end Parts

/-! ## Numbers that are told apart -/

section Apart

variable (hm : m.TakesExtreme)
include hm

theorem TakesExtreme.foldValues_singleton (hv : v.isNumeric = true) : m.foldValues [v] = .ok v := by
  rw [← List.nil_append [v], hm.foldValues_append_singleton hv rfl, hm.initial, reduce_null_left]

theorem TakesExtreme.foldValues_pair (hv : v.isNumeric = true) (hw : w.isNumeric = true)
    (h : w.compare v = .ok o) : m.foldValues [v, w] = .ok (if o = m.side then w else v) := by
  rw [← List.singleton_append, hm.foldValues_append_singleton hw (hm.foldValues_singleton hv),
    hm.reduce hv hw h]

/-- Of two merged numbers the first one is kept, and a third one that passes it replaces it. -/
theorem TakesExtreme.foldValues_triple (ha : a.isNumeric = true) (hb : b.isNumeric = true)
    (hc : c.isNumeric = true) (hba : b.compare a = .ok .eq) (hca : c.compare a = .ok o) :
    m.foldValues [a, b, c] = .ok (if o = m.side then c else a) := by
  have hpair := hm.foldValues_pair ha hb hba
  rw [if_neg hm.side_ne_eq.symm] at hpair
  rw [show [a, b, c] = [a, b] ++ [c] from rfl, hm.foldValues_append_singleton hc hpair,
    hm.reduce ha hc hca]

/-- If extremes are found from any parts, a number that equals one of two merged numbers equals the
other one. -/
theorem FindsExtreme.compare_eq (ha : a.isNumeric = true) (hb : b.isNumeric = true)
    (hc : c.isNumeric = true) (hab : a.compare b = .ok .eq) (hbc : b.compare c = .ok .eq)
    (h : m.FindsExtreme [a, b, c]) (h' : m.FindsExtreme [c, b, a]) : a.compare c = .ok .eq := by
  have hne := hm.side_ne_eq.symm
  have hba : b.compare a = .ok .eq := compare_swap ha hb hab
  have hcb : c.compare b = .ok .eq := compare_swap hb hc hbc
  obtain ⟨o, hac⟩ := exists_compare ha hc
  obtain ⟨r, hfold, -, -, hsplit⟩ := h
  obtain ⟨s, hfold', -, -, hsplit'⟩ := h'
  rw [hm.foldValues_triple ha hb hc hba (compare_swap ha hc hac), Except.ok.injEq] at hfold
  rw [hm.foldValues_triple hc hb ha hbc hac, Except.ok.injEq] at hfold'
  by_cases hside : o = m.side
  · -- from the parts the third number is kept, and the first one passes it
    rw [if_pos hside] at hfold'
    obtain ⟨r₁, r₂, r', h₁, h₂, hreduce, hequal⟩ := hsplit' [c] [b, a] (.refl _)
    rw [hm.foldValues_singleton hc, Except.ok.injEq] at h₁
    rw [hm.foldValues_pair hb ha hab, if_neg hne, Except.ok.injEq] at h₂
    subst hfold' h₁ h₂
    rw [hm.reduce hc hb hbc, if_neg hne, Except.ok.injEq] at hreduce
    subst hreduce
    exact compare_swap hc ha ((equals_iff_compare_eq hc).1 hequal)
  · obtain ⟨r₁, r₂, r', h₁, h₂, hreduce, hequal⟩ := hsplit [a] [b, c] (.refl _)
    rw [hm.foldValues_singleton ha, Except.ok.injEq] at h₁
    rw [hm.foldValues_pair hb hc hcb, if_neg hne, Except.ok.injEq] at h₂
    subst h₁ h₂
    rw [hm.reduce ha hb hba, if_neg hne, Except.ok.injEq] at hreduce
    subst hreduce
    split at hfold
    · subst hfold
      exact (equals_iff_compare_eq ha).1 hequal
    · -- neither passes the other one
      rename_i hswap
      rw [hac]
      rcases hm with rfl | rfl <;> cases o <;>
        first | rfl | exact absurd rfl hside | exact absurd rfl hswap

/-- If extremes are found in any order, no number is between two merged ones. -/
theorem FindsExtreme.not_between (ha : a.isNumeric = true) (hb : b.isNumeric = true)
    (hc : c.isNumeric = true) (hba : b.compare a = .ok .eq) (hca : c.compare a = .ok m.side)
    (h : m.FindsExtreme [a, b, c]) : b.compare c ≠ .ok m.side := by
  intro hbc
  obtain ⟨r, hfold, hr, -⟩ := h
  rw [hm.foldValues_triple ha hb hc hba hca, if_pos rfl, Except.ok.injEq] at hfold
  subst hfold
  obtain ⟨o, ho, hne⟩ := hr.notPassed b (by simp)
  exact hne (Except.ok.inj (ho.symm.trans hbc))

/-- If extremes are found in any order and from any parts of any numbers of some kind, no number of
them tells two others apart that are merged. -/
theorem consistent_of_findsExtreme (hnumeric : ∀ {v}, values v → v.isNumeric = true)
    (h : ∀ vs : List Value, vs ≠ [] → (∀ v ∈ vs, values v) → m.FindsExtreme vs) :
    Consistent values := by
  refine ⟨hnumeric, ?_⟩
  rintro a b c ha hb hc ⟨hmerged, happart⟩
  have hfinds {x y z : Value} (hx : values x) (hy : values y) (hz : values z) :
      m.FindsExtreme [x, y, z] := by
    apply h _ (List.cons_ne_nil _ _)
    simp only [List.forall_mem_cons]
    exact ⟨hx, hy, hz, List.forall_mem_nil _⟩
  have hab := hmerged.compare
  have hba := hmerged.symm.compare
  have hna := hnumeric ha
  have hnb := hnumeric hb
  have hnc := hnumeric hc
  obtain ⟨o, hac⟩ := exists_compare hna hnc
  obtain ⟨o', hbc⟩ := exists_compare hnb hnc
  rw [hac, hbc, ne_eq, Except.ok.injEq] at happart
  by_cases ho' : o' = .eq
  · subst ho'
    have hequal := FindsExtreme.compare_eq hm hna hnb hnc hab hbc (hfinds ha hb hc)
      (hfinds hc hb ha)
    exact happart (Except.ok.inj (hac.symm.trans hequal))
  by_cases ho : o = .eq
  · subst ho
    have hequal := FindsExtreme.compare_eq hm hnb hna hnc hba hac (hfinds hb ha hc)
      (hfinds hc ha hb)
    exact happart (Except.ok.inj (hbc.symm.trans hequal)).symm
  -- one passes the third number, which passes the other one
  have hsides : o = m.side ∧ o'.swap = m.side ∨ o' = m.side ∧ o.swap = m.side := by
    rcases hm with rfl | rfl <;> cases o <;> cases o' <;>
      first | exact absurd rfl happart | exact absurd rfl ho | exact absurd rfl ho' | decide
  rcases hsides with ⟨hside, hswap⟩ | ⟨hside, hswap⟩
  · exact FindsExtreme.not_between hm hnb hna hnc hab (hswap ▸ compare_swap hnb hnc hbc)
      (hfinds hb ha hc) (hside ▸ hac)
  · exact FindsExtreme.not_between hm hna hnb hnc hba (hswap ▸ compare_swap hna hnc hac)
      (hfinds ha hb hc) (hside ▸ hbc)

end Apart

/-- Whatever lists are made of some numbers, their fold gives an extreme one, and an equal one in
any order and from the parts of any split, exactly if none of the numbers tells two others apart of
which one is an integer that is rounded to the other. -/
theorem extremes_regroup_iff (hm : m.TakesExtreme) (values : Value → Prop)
    (hnumeric : ∀ v, values v → v.isNumeric = true) :
    (∀ vs : List Value, vs ≠ [] → (∀ v ∈ vs, values v) → m.FindsExtreme vs) ↔
      ∀ a b c, values a → values b → values c → ¬ TellsApart c a b := by
  constructor
  · intro h a b c ha hb hc
    exact (consistent_of_findsExtreme hm (hnumeric _) h).not_tellsApart ha hb hc
  · intro h vs hne hvs
    exact findsExtreme_of_consistent hm ⟨hnumeric _, h _ _ _⟩ hne hvs

/-- The double precision number between `2 ^ 24` and its successor. -/
def betweenLimits : Value := double (Numeric.doubleOfWord 0x4170000008000000)

/-- The greatest of three numbers depends on their order, and may be less than one of them. -/
theorem max_depends_on_order :
    (Measure.max.foldValues [floatLimit, long 16777217, betweenLimits] = .ok betweenLimits ∧
        betweenLimits.compare (long 16777217) = .ok .lt) ∧
      Measure.max.foldValues [betweenLimits, floatLimit, long 16777217] = .ok (long 16777217) ∧
        (long 16777217).equals betweenLimits = false := by
  refine ⟨⟨rfl, ?_⟩, rfl, ?_⟩ <;> decide +kernel

/-- A LONG and the FLOAT it is rounded to are not told apart by each other. -/
theorem extremes_regroup_iff_limits :
    Measure.max.FindsExtreme [floatLimit, long 16777217, floatLimit] := by
  have hequal : ∀ v w, v = floatLimit ∨ v = long 16777217 → w = floatLimit ∨ w = long 16777217 →
      v.compare w = .ok .eq := by
    rintro v w (rfl | rfl) (rfl | rfl) <;> decide +kernel
  refine (extremes_regroup_iff (.inr rfl) (fun v => v = floatLimit ∨ v = long 16777217) ?_).2 ?_ _
    (List.cons_ne_nil _ _) (by simp)
  · rintro v (rfl | rfl) <;> rfl
  · rintro a b c ha hb hc ⟨-, hne⟩
    exact hne ((hequal a c ha hc).trans (hequal b c hb hc).symm)

end Measure

end StreamQuery
