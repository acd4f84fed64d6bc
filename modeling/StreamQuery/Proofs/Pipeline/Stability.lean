import StreamQuery.Proofs.Pipeline.Sorting
set_option autoImplicit false

/-!
# Stable sorting

The values of a sort key that are all of one kind, or all INTEGER or LONG, compare transitively
(`Value.composes_of_oneScale`), and rows of such values do (`SortKey.composes_orderRows`).  Then no
record of a sorted batch is less than any record in front of it, and records that compare equal
stand as they did before: the places where they stood can be taken for a last sort key, and the sort
does not change (`mergeSort_then`).  There is only one such arrangement (`Stage.orderBy_stable`).
-/

namespace StreamQuery

/-! ## Comparing in steps -/

/-- The comparisons of two steps and of their ends: if neither step goes down, the ends compare as
the first step that goes up. -/
def Composes (first second ends : Ordering) : Prop :=
  first ≠ .gt → second ≠ .gt → ends = first.then second

namespace Composes

variable {first second ends first' second' ends' : Ordering}

/-- Steps that do not go down do not go down together. -/
theorem ne_gt (h : Composes first second ends) (hfirst : first ≠ .gt) (hsecond : second ≠ .gt) :
    ends ≠ .gt := by
  rw [h hfirst hsecond]
  exact Value.then_ne_gt hfirst hsecond

/-- The steps may change places. -/
theorem comm (h : Composes first second ends) : Composes second first ends := by
  intro hsecond hfirst
  rw [h hfirst hsecond]
  revert hfirst hsecond
  cases first <;> cases second <;> decide

/-- What decides where another comparison does not is composed of the steps of both. -/
theorem thenBy (h : Composes first second ends) (h' : Composes first' second' ends') :
    Composes (first.then first') (second.then second') (ends.then ends') := by
  intro hfirst hsecond
  rcases Value.then_ne_gt_iff.1 hfirst with rfl | ⟨rfl, hfirst'⟩ <;>
    rcases Value.then_ne_gt_iff.1 hsecond with rfl | ⟨rfl, hsecond'⟩ <;>
    obtain rfl := h nofun nofun
  · rfl
  · rfl
  · cases first' with
    | lt => rfl
    | eq => rfl
    | gt => exact absurd rfl hfirst'
  · exact h' hfirst' hsecond'

end Composes

/-! ## Values on one scale -/

namespace Value

variable {a b c l r : Value}

/-- Values of one kind, or whole numbers. -/
def OneScale (l r : Value) : Prop :=
  l.kind = r.kind ∨ l.kind.isIntegral = true ∧ r.kind.isIntegral = true

/-- The comparison of two values; values that cannot be compared count as equal. -/
def compareOrEqual (l r : Value) : Ordering :=
  match l.compare r with
  | .ok o => o
  | .error _ => .eq

theorem OneScale.symm (h : OneScale l r) : OneScale r l := h.imp Eq.symm And.symm

/-- Values on one scale are not rounded to each other: only a whole number is rounded, and to one
that is not of a whole kind. -/
theorem OneScale.not_roundsTo (h : OneScale l r) : ¬ RoundsTo l r := by
  rintro ⟨n, hn, hnearest, -⟩
  have hwhole : l.kind.isIntegral = true := by
    cases l <;> first | rfl | cases hn
  have hfraction : r.kind.isIntegral = false := by
    cases r <;> first | rfl | cases hnearest
  rcases h with hkind | ⟨-, hwhole'⟩
  · rw [← hkind, hwhole] at hfraction
    cases hfraction
  · exact nomatch hfraction.symm.trans hwhole'

theorem OneScale.not_merged (h : OneScale l r) : ¬ Merged l r := by
  rintro (hrounds | hrounds)
  · exact h.not_roundsTo hrounds
  · exact h.symm.not_roundsTo hrounds

/-- Numbers on one scale compare transitively. -/
theorem composes_of_isNumeric (ha : a.isNumeric = true) (hb : b.isNumeric = true)
    (hc : c.isNumeric = true) (hab : OneScale a b) (hbc : OneScale b c) (hac : OneScale a c) :
    Composes (a.compareOrEqual b) (b.compareOrEqual c) (a.compareOrEqual c) := by
  have hparted : ¬ Parted a b c := by
    rintro (⟨hmerged, -⟩ | ⟨hmerged, -⟩ | ⟨hmerged, -⟩)
    · exact hab.not_merged hmerged
    · exact hbc.not_merged hmerged
    · exact hac.not_merged hmerged
  obtain ⟨o, ho⟩ := exists_compare ha hb
  obtain ⟨o', ho'⟩ := exists_compare hb hc
  intro hfirst hsecond
  simp only [compareOrEqual, ho, ho'] at hfirst hsecond ⊢
  rw [compare_of_not_parted ha hb hc ho ho' hfirst hsecond hparted]

theorem isNumeric_of_isIntegral (h : l.kind.isIntegral = true) : l.isNumeric = true := by
  cases l <;> first | rfl | cases h

theorem OneScale.isNumeric_right (h : OneScale l r) (hl : l.isNumeric = true) :
    r.isNumeric = true := by
  rcases h with h | ⟨-, hr⟩
  · rwa [isNumeric, ← h]
  · exact isNumeric_of_isIntegral hr

/-- Only numbers are on one scale with values of another kind. -/
theorem OneScale.kind_eq (h : OneScale l r) (hl : l.isNumeric = false) : l.kind = r.kind := by
  rcases h with h | ⟨hwhole, -⟩
  · exact h
  · exact nomatch hl.symm.trans (isNumeric_of_isIntegral hwhole)

/-- Values on one scale compare transitively. -/
theorem composes_of_oneScale (hab : OneScale a b) (hbc : OneScale b c) (hac : OneScale a c) :
    Composes (a.compareOrEqual b) (b.compareOrEqual c) (a.compareOrEqual c) := by
  by_cases ha : a.isNumeric = true
  · exact composes_of_isNumeric ha (hab.isNumeric_right ha) (hac.isNumeric_right ha) hab hbc hac
  · rw [Bool.not_eq_true] at ha
    have hb := hab.kind_eq ha
    have hc := hac.kind_eq ha
    cases a with
    | string s =>
      cases b <;> cases hb
      cases c <;> cases hc
      exact compare_then_compare
    | boolean t =>
      cases b <;> cases hb
      cases c <;> cases hc
      exact compare_then_compare
    | integer n => cases ha
    | long n => cases ha
    | float x => cases ha
    | double x => cases ha
    | _ =>
      cases b <;> cases hb
      cases c <;> cases hc
      exact fun _ _ => rfl

end Value

/-! ## Rows on one scale -/

namespace SortKey

/-- The value of a sort key on a record. -/
def value (k : SortKey) (r : Record) : Value := k.expression.evalOrNull Record.lookup r

/-- The values of a sort key on records that are not NULL are all of one kind, or all INTEGER or
LONG. -/
def OneScale (k : SortKey) (records : List Record) : Prop :=
  (∃ kind, ∀ r ∈ records, (k.value r).isNull = false → (k.value r).kind = kind) ∨
    ∀ r ∈ records, (k.value r).isNull = false → (k.value r).kind.isIntegral = true

variable {k : SortKey} {ks : List SortKey} {records : List Record} {a b c : Record}

theorem OneScale.pair (h : k.OneScale records) (ha : a ∈ records) (hb : b ∈ records)
    (hvalue : (k.value a).isNull = false) (hvalue' : (k.value b).isNull = false) :
    (k.value a).OneScale (k.value b) := by
  rcases h with ⟨kind, hkind⟩ | hwhole
  · exact .inl ((hkind a ha hvalue).trans (hkind b hb hvalue').symm)
  · exact .inr ⟨hwhole a ha hvalue, hwhole b hb hvalue'⟩

/-- Two values that are not NULL compare in the direction of their key. -/
theorem order_of_not_null {l r : Value} (hl : l.isNull = false) (hr : r.isNull = false) :
    k.order l r = match k.direction with
      | .ascending => l.compareOrEqual r
      | .descending => r.compareOrEqual l := by
  unfold order Value.compareWithNulls Value.compareOrEqual
  cases k.direction <;>
    rcases Value.compare_swap_or_error l r with ⟨o, ho, hswap⟩ | ⟨e, e', he, he'⟩
  · simp [hl, hr, ho]
  · simp [hl, hr, he]
  · simp [hl, hr, ho, hswap]
  · simp [hl, hr, he, he']

/-- The values of a key on one scale compare transitively, in either direction and with NULL in
front. -/
theorem composes_order {u v w : Value}
    (huv : u.isNull = false → v.isNull = false → u.OneScale v)
    (hvw : v.isNull = false → w.isNull = false → v.OneScale w)
    (huw : u.isNull = false → w.isNull = false → u.OneScale w) :
    Composes (k.order u v) (k.order v w) (k.order u w) := by
  cases hu : u.isNull <;> cases hv : v.isNull <;> cases hw : w.isNull
  · rw [order_of_not_null hu hv, order_of_not_null hv hw, order_of_not_null hu hw]
    cases k.direction with
    | ascending => exact Value.composes_of_oneScale (huv hu hv) (hvw hv hw) (huw hu hw)
    | descending =>
      exact (Value.composes_of_oneScale (hvw hv hw).symm (huv hu hv).symm (huw hu hw).symm).comm
  all_goals
    intro hfirst hsecond
    simp_all [order, Value.compareWithNulls]

theorem composes_orderRows (h : ∀ k ∈ ks, k.OneScale records) (ha : a ∈ records)
    (hb : b ∈ records) (hc : c ∈ records) :
    Composes (orderRows ks (row ks a) (row ks b)) (orderRows ks (row ks b) (row ks c))
      (orderRows ks (row ks a) (row ks c)) := by
  induction ks with
  | nil => exact fun _ _ => rfl
  | cons k ks ih =>
    rw [List.forall_mem_cons] at h
    exact (composes_order (h.1.pair ha hb) (h.1.pair hb hc) (h.1.pair ha hc)).thenBy (ih h.2)

end SortKey

/-! ## Places as a last sort key -/

/-- A comparison that no item in front loses against a later one decides nothing: items that compare
equal stay in their order anyway. -/
theorem mergeSort_then {α : Type} {order tie : α → α → Ordering} {items : List α}
    (h : items.Pairwise fun before after => tie after before ≠ .lt) :
    mergeSort (fun a b => (order a b).then (tie a b)) items = mergeSort order items := by
  induction items using mergeSort.induct with
  | case1 items hshort => rw [mergeSort, mergeSort, if_pos hshort, if_pos hshort]
  | case2 items hlong half ihl ihr =>
    have hmerge : ∀ l ∈ mergeSort order (items.take half), ∀ r ∈ mergeSort order (items.drop half),
        ((order r l).then (tie r l) != .lt) = (order r l != .lt) := by
      intro l hl r hr
      have htie : tie r l ≠ .lt := h.rel_of_mem_take_of_mem_drop
        ((mergeSort_perm _ _).mem_iff.1 hl) ((mergeSort_perm _ _).mem_iff.1 hr)
      revert htie
      cases order r l <;> cases tie r l <;> decide
    rw [mergeSort, mergeSort, if_neg hlong, if_neg hlong]
    show List.merge (mergeSort _ (items.take half)) (mergeSort _ (items.drop half)) _ = _
    rw [ihl (h.sublist (items.take_sublist half)), ihr (h.sublist (items.drop_sublist half))]
    have hsame := List.map_merge (f := id)
      (r := fun l r => (order r l).then (tie r l) != .lt) (s := fun l r => order r l != .lt) hmerge
    rwa [List.map_id, List.map_id, List.map_id] at hsame

/-- A chain of items that are related transitively relates any item to all behind it. -/
theorem pairwise_of_isChain {α : Type} {R : α → α → Prop} {items : List α}
    (htrans : ∀ a ∈ items, ∀ b ∈ items, ∀ c ∈ items, R a b → R b c → R a c)
    (h : items.IsChain R) : items.Pairwise R := by
  have : IsTrans α fun a b => a ∈ items ∧ b ∈ items ∧ R a b :=
    ⟨fun a b c hab hbc => ⟨hab.1, hbc.2.1, htrans a hab.1 b hab.2.1 c hbc.2.1 hab.2.2 hbc.2.2⟩⟩
  exact (List.isChain_iff_pairwise.1 (List.IsChain.iff_mem.1 h)).imp fun hrelated => hrelated.2.2

namespace SortKey

variable {ks : List SortKey} {records : List Record} {a b c : Record × Nat}

/-- A record may stand in front of another one: it is not greater, and if they compare equal, it
stood in front before.  With each record comes the place where it stood. -/
def Precedes (ks : List SortKey) (before after : Record × Nat) : Prop :=
  orderRows ks (row ks before.1) (row ks after.1) ≠ .gt ∧
    (orderRows ks (row ks before.1) (row ks after.1) = .eq → before.2 < after.2)

instance (ks : List SortKey) : DecidableRel (Precedes ks) := fun _ _ => instDecidableAnd

/-- The records with their places are arranged so that any of them may stand in front of all that
are behind it. -/
structure StablySorted (ks : List SortKey) (records : List Record)
    (arranged : List (Record × Nat)) : Prop where
  perm : arranged.Perm records.zipIdx
  ordered : arranged.Pairwise (Precedes ks)

/-- The comparison of records, and of their places if they compare equal. -/
def orderPlaced (ks : List SortKey) (a b : Record × Nat) : Ordering :=
  (orderRows ks (row ks a.1) (row ks b.1)).then (Ord.compare a.2 b.2)

theorem orderPlaced_swap (ks : List SortKey) (a b : Record × Nat) :
    orderPlaced ks b a = (orderPlaced ks a b).swap := by
  rw [orderPlaced, orderPlaced, Ordering.swap_then, ← orderRows_swap, ← Std.OrientedOrd.eq_swap]

theorem precedes_iff (hplaces : a.2 ≠ b.2) : Precedes ks a b ↔ orderPlaced ks a b ≠ .gt := by
  rw [Precedes, orderPlaced, Value.then_ne_gt_iff, compare_le_iff_le, hplaces.le_iff_lt]
  cases orderRows ks (row ks a.1) (row ks b.1) <;> simp

/-- Records are sorted as they are with their places. -/
theorem sort_eq_map (ks : List SortKey) (records : List Record) :
    SortKey.sort ks records = (mergeSort (orderPlaced ks) records.zipIdx).map Prod.fst := by
  have hplaces : records.zipIdx.Pairwise fun before after =>
      Ord.compare after.2 before.2 ≠ .lt := by
    have hrising : (records.zipIdx.map Prod.snd).Pairwise (· < ·) := by
      rw [List.zipIdx_map_snd]
      exact List.pairwise_lt_range'
    refine (List.pairwise_map.1 hrising).imp fun hlt hless => ?_
    exact absurd (compare_lt_iff_lt.1 hless) (Nat.lt_asymm hlt)
  calc SortKey.sort ks records
      = mergeSort (fun a b => orderRows ks (row ks a) (row ks b))
          (records.zipIdx.map Prod.fst) := by rw [List.zipIdx_map_fst, sort_eq_mergeSort]
    _ = (mergeSort (fun a b => orderRows ks (row ks a.1) (row ks b.1)) records.zipIdx).map
          Prod.fst := mergeSort_map _ _ _
    _ = (mergeSort (orderPlaced ks) records.zipIdx).map Prod.fst := by
        rw [← mergeSort_then hplaces]
        rfl

/-- Records whose keys are on one scale are sorted stably. -/
theorem stablySorted_mergeSort (h : ∀ k ∈ ks, k.OneScale records) :
    StablySorted ks records (mergeSort (orderPlaced ks) records.zipIdx) := by
  have hperm := mergeSort_perm (orderPlaced ks) records.zipIdx
  have hchain : (mergeSort (orderPlaced ks) records.zipIdx).IsChain fun a b =>
      orderPlaced ks a b ≠ .gt := by
    refine (isChain_mergeSort (fun {a b} hless => ?_) _).imp fun a b hfollow => ?_
    · rw [orderPlaced_swap, hless]
      decide
    · rwa [MayFollow, orderPlaced_swap, Ne, Ordering.swap_eq_lt] at hfollow
  have hmem : ∀ a ∈ mergeSort (orderPlaced ks) records.zipIdx, a.1 ∈ records := fun a ha => by
    rw [← List.zipIdx_map_fst 0 records]
    exact List.mem_map_of_mem (hperm.mem_iff.1 ha)
  have hordered : (mergeSort (orderPlaced ks) records.zipIdx).Pairwise fun a b =>
      orderPlaced ks a b ≠ .gt := by
    refine pairwise_of_isChain (fun a ha b hb c hc hab hbc => ?_) hchain
    have hplaces : Composes (Ord.compare a.2 b.2) (Ord.compare b.2 c.2) (Ord.compare a.2 c.2) :=
      Value.compare_then_compare
    have hrows := composes_orderRows h (hmem a ha) (hmem b hb) (hmem c hc)
    exact (hrows.thenBy hplaces).ne_gt hab hbc
  have hdistinct : (mergeSort (orderPlaced ks) records.zipIdx).Pairwise fun a b => a.2 ≠ b.2 :=
    List.pairwise_map.1 ((hperm.map Prod.snd).nodup_iff.2 (List.nodup_zipIdx_map_snd records))
  exact ⟨hperm, (hordered.and hdistinct).imp fun hboth => (precedes_iff hboth.2).2 hboth.1⟩

/-- There is only one stable arrangement. -/
theorem StablySorted.unique {arranged arranged' : List (Record × Nat)}
    (h : StablySorted ks records arranged) (h' : StablySorted ks records arranged') :
    arranged = arranged' := by
  refine List.Perm.eq_of_pairwise ?_ h.ordered h'.ordered (h.perm.trans h'.perm.symm)
  intro a b _ _ hab hba
  have hequal : orderRows ks (row ks a.1) (row ks b.1) = .eq := by
    have hother := hba.1
    rw [orderRows_swap ks (row ks a.1), Ne, Ordering.swap_eq_gt] at hother
    have hone := hab.1
    revert hone hother
    cases orderRows ks (row ks a.1) (row ks b.1) <;> decide
  have hequal' : orderRows ks (row ks b.1) (row ks a.1) = .eq := by
    rw [orderRows_swap ks (row ks a.1), hequal]
    rfl
  exact absurd (hab.2 hequal) (Nat.lt_asymm (hba.2 hequal'))

end SortKey

/-! ## The stage -/

namespace Stage

open SortKey

/-- Where the values of each sort key are all of one kind, or all INTEGER or LONG, NULL apart, an
ORDER BY stage is the stable sort: there is exactly one arrangement of the records in which no
record is greater than one behind it and records that compare equal stand as they did before, and
the stage puts the records into this arrangement. -/
theorem orderBy_stable (ks : List SortKey) (b : Batch) (h : ∀ k ∈ ks, k.OneScale b.records) :
    ∃ sorted, run b (orderBy ks) = .ok sorted ∧ sorted.metadata = b.metadata ∧
      (∃! arranged, StablySorted ks b.records arranged) ∧
      ∀ arranged, StablySorted ks b.records arranged →
        sorted.records = arranged.map Prod.fst := by
  have hsorted := stablySorted_mergeSort h
  refine ⟨_, rfl, rfl, ⟨_, hsorted, fun _ hother => hother.unique hsorted⟩, ?_⟩
  intro arranged harranged
  rw [harranged.unique hsorted]
  exact sort_eq_map ks b.records

/-- Scores of two groups, one record without a group and one without a score; scores are INTEGER or
LONG. -/
def scores : Batch :=
  .ofRecords
    [.ofList [("id", .integer 1), ("group", .string "b"), ("score", .integer 5)],
      .ofList [("id", .integer 2), ("group", .string "a"), ("score", .integer 1)],
      .ofList [("id", .integer 3), ("group", .string "a"), ("score", .long 9)],
      .ofList [("id", .integer 4), ("score", .integer 3)],
      .ofList [("id", .integer 5), ("group", .string "b"), ("score", .null)],
      .ofList [("id", .integer 6), ("group", .string "a"), ("score", .long 1)]]

/-- By group, and the highest score first. -/
def byGroup : List SortKey :=
  [⟨.column "group", .ascending⟩, ⟨.column "score", .descending⟩]

theorem orderBy_stable_scores :
    (∀ k ∈ byGroup, k.OneScale scores.records) ∧
      ∃ sorted, run scores (orderBy byGroup) = .ok sorted ∧
        (∃! arranged, StablySorted byGroup scores.records arranged) ∧
        sorted.records.map (fun r => (r.get? "id").bind Value.integral?)
          = [some 4, some 3, some 2, some 6, some 5, some 1] := by
  have hscale : ∀ k ∈ byGroup, k.OneScale scores.records := by
    refine List.forall_mem_cons.2 ⟨.inl ⟨.string, ?_⟩, List.forall_mem_singleton.2 (.inr ?_)⟩
    · decide +kernel
    · decide +kernel
  obtain ⟨sorted, hrun, -, hunique, hsorted⟩ := orderBy_stable byGroup scores hscale
  have hperm : [3, 2, 1, 5, 4, 0].Perm (List.range 6) := by decide
  have harranged : StablySorted byGroup scores.records
      ([3, 2, 1, 5, 4, 0].map fun place => (scores.records.getD place .empty, place)) :=
    ⟨hperm.map fun place => (scores.records.getD place .empty, place), by decide +kernel⟩
  refine ⟨hscale, sorted, hrun, hunique, ?_⟩
  rw [hsorted _ harranged]
  decide +kernel

end Stage

end StreamQuery
