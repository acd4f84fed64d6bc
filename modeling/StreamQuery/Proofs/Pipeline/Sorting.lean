import StreamQuery.Proofs.Pipeline.Meaning
import StreamQuery.Proofs.Value.Ordering
set_option autoImplicit false

/-!
# Sorting by keys of any kinds

Sort keys need not be ordered: values that cannot be compared count as equal, and numbers of several
kinds are compared after rounding, so that rows do not compare transitively.  What is left is that
two rows compare the other way when they are swapped (`SortKey.orderRows_swap`).  That is enough for
a merge sort to put no item directly behind one that it is less than (`isChain_mergeSort`).  And
since a row without a first value is less than every row with one, the records without a first value
come first (`Stage.orderBy_sorts`).
-/

namespace StreamQuery

/-! ## Merging without transitivity -/

section Merging

variable {α β : Type} {order : α → α → Ordering}

/-- An item may stand directly behind another one, as it is not less. -/
def MayFollow (order : α → α → Ordering) (before after : α) : Prop := order after before ≠ .lt

/-- Two chains that may both follow an item are merged to one that may follow it.  The comparison of
their first items, by which one of them goes in front, is also what lets the other chain follow that
one: either the right item is not less, or it is less and so the left one is not. -/
theorem isChain_cons_merge (asymm : ∀ {a b}, order a b = .lt → order b a ≠ .lt) {before : α}
    {left right : List α} (hleft : (before :: left).IsChain (MayFollow order))
    (hright : (before :: right).IsChain (MayFollow order)) :
    (before :: left.merge right fun l r => order r l != .lt).IsChain (MayFollow order) := by
  induction left generalizing before right with
  | nil =>
    rw [List.nil_merge]
    exact hright
  | cons l left ihl =>
    induction right generalizing before with
    | nil =>
      rw [List.merge_right]
      exact hleft
    | cons r right ihr =>
      rw [List.isChain_cons_cons] at hleft hright
      rw [List.cons_merge_cons]
      split
      · rename_i hle
        have hfollow : MayFollow order l r := bne_iff_ne.1 hle
        exact .cons_cons hleft.1 (ihl hleft.2 (.cons_cons hfollow hright.2))
      · rename_i hle
        have hless : order r l = .lt := by simpa using hle
        exact .cons_cons hright.1 (ihr (.cons_cons (asymm hless) hleft.2) hright.2)

theorem isChain_merge (asymm : ∀ {a b}, order a b = .lt → order b a ≠ .lt) {left right : List α}
    (hleft : left.IsChain (MayFollow order)) (hright : right.IsChain (MayFollow order)) :
    (left.merge right fun l r => order r l != .lt).IsChain (MayFollow order) := by
  cases left with
  | nil =>
    rw [List.nil_merge]
    exact hright
  | cons l left =>
    cases right with
    | nil =>
      rw [List.merge_right]
      exact hleft
    | cons r right =>
      rw [List.cons_merge_cons]
      split
      · rename_i hle
        have hfollow : MayFollow order l r := bne_iff_ne.1 hle
        exact isChain_cons_merge asymm hleft (.cons_cons hfollow hright)
      · rename_i hle
        have hless : order r l = .lt := by simpa using hle
        exact isChain_cons_merge asymm (.cons_cons (asymm hless) hleft) hright

/-- Sorting leaves no item directly behind one that it is less than, whether or not the comparison
is transitive. -/
theorem isChain_mergeSort (asymm : ∀ {a b}, order a b = .lt → order b a ≠ .lt) (items : List α) :
    (mergeSort order items).IsChain (MayFollow order) := by
  induction items using mergeSort.induct with
  | case1 items h =>
    rw [mergeSort, if_pos h]
    cases items with
    | nil => exact .nil
    | cons a rest =>
      rw [List.length_eq_zero_iff.1 (by simpa using h : rest.length = 0)]
      exact .singleton a
  | case2 items h half ihl ihr =>
    rw [mergeSort, if_neg h]
    exact isChain_merge asymm ihl ihr

/-- Items that are compared by what is made of them may be sorted before it is made. -/
theorem mergeSort_map (order : β → β → Ordering) (f : α → β) (items : List α) :
    mergeSort order (items.map f) = (mergeSort (fun a b => order (f a) (f b)) items).map f := by
  induction items using mergeSort.induct with
  | case1 items h => rw [mergeSort, mergeSort, List.length_map, if_pos h, if_pos h]
  | case2 items h half ihl ihr =>
    rw [mergeSort, mergeSort, List.length_map, if_neg h, if_neg h]
    show List.merge (mergeSort order ((items.map f).take half))
      (mergeSort order ((items.map f).drop half)) _ = _
    rw [← List.map_take, ← List.map_drop, ihl, ihr]
    exact (List.map_merge (f := f) fun _ _ _ _ => rfl).symm

end Merging

/-! ## Rows of sort keys -/

namespace SortKey

/-- Two values of a sort key compare the other way when they are swapped. -/
theorem order_swap (k : SortKey) (l r : Value) : k.order r l = (k.order l r).swap := by
  unfold order Value.compareWithNulls
  cases hl : l.isNull <;> cases hr : r.isNull
  · rcases Value.compare_swap_or_error l r with ⟨o, ho, hswap⟩ | ⟨e, e', he, he'⟩
    · simp only [ho, hswap, Bool.false_eq_true, or_self, if_false]
      cases k.direction <;> rfl
    · simp only [he, he', Ordering.swap_eq]
  all_goals simp

/-- Two rows compare the other way when they are swapped. -/
theorem orderRows_swap (ks : List SortKey) (ls rs : List Value) :
    orderRows ks rs ls = (orderRows ks ls rs).swap := by
  induction ks generalizing ls rs with
  | nil => simp only [orderRows, Ordering.swap_eq]
  | cons k ks ih =>
    cases ls with
    | nil => cases rs <;> simp only [orderRows, Ordering.swap_eq]
    | cons l ls =>
      cases rs with
      | nil => simp only [orderRows, Ordering.swap_eq]
      | cons r rs => rw [orderRows, orderRows, order_swap k l r, ih ls rs, Ordering.swap_then]

theorem orderRows_asymm {ks : List SortKey} {ls rs : List Value}
    (h : orderRows ks ls rs = .lt) : orderRows ks rs ls ≠ .lt := by
  rw [orderRows_swap ks ls rs, h]
  decide

/-- Records are sorted by comparing their rows. -/
theorem sort_eq_mergeSort (ks : List SortKey) (records : List Record) :
    SortKey.sort ks records
      = mergeSort (fun a b => orderRows ks (row ks a) (row ks b)) records := by
  rw [sort, mergeSort_map, List.map_map]
  exact List.map_id _

/-! ## Records without a value -/

/-- The key has no value for a record: it is NULL, or the expression fails. -/
def Lacks (k : SortKey) (r : Record) : Prop :=
  k.expression.eval Record.lookup r = .ok .null ∨ ∃ e, k.expression.eval Record.lookup r = .error e

theorem lacks_iff {k : SortKey} {r : Record} :
    k.Lacks r ↔ (k.expression.evalOrNull Record.lookup r).isNull = true := by
  unfold Lacks Expr.evalOrNull
  cases k.expression.eval Record.lookup r with
  | error e => simp [Value.isNull]
  | ok v => simp [Value.isNull_iff]

/-- A record without a first value is less than one with a first value, in either direction. -/
theorem orderRows_of_lacks {k : SortKey} (ks : List SortKey) {a b : Record} (ha : k.Lacks a)
    (hb : ¬k.Lacks b) : orderRows (k :: ks) (row (k :: ks) a) (row (k :: ks) b) = .lt := by
  have hb' : (k.expression.evalOrNull Record.lookup b).isNull = false :=
    Bool.eq_false_iff.2 fun hnull => hb (lacks_iff.2 hnull)
  have hfirst : k.order (k.expression.evalOrNull Record.lookup a)
      (k.expression.evalOrNull Record.lookup b) = .lt := by
    simp only [order, Value.compareWithNulls, lacks_iff.1 ha, hb', true_or, if_true]
  rw [row, row, List.map_cons, List.map_cons, orderRows, hfirst]
  rfl

/-- Only a record without a first value stands in front of one without. -/
theorem lacks_of_mayFollow {k : SortKey} {ks : List SortKey} {before after : Record}
    (h : MayFollow (fun a b => orderRows (k :: ks) (row (k :: ks) a) (row (k :: ks) b)) before
      after) (hafter : k.Lacks after) : k.Lacks before := by
  by_contra hbefore
  exact h (orderRows_of_lacks ks hafter hbefore)

end SortKey

/-! ## The stage -/

namespace Stage

open SortKey

/-- An ORDER BY stage succeeds on every batch.  It keeps the records, each as often as it is there,
and the metadata; it puts no record directly behind one that it is less than; and it puts the
records for which the first key has no value in front of all others. -/
theorem orderBy_sorts (k : SortKey) (ks : List SortKey) (b : Batch) :
    (orderBy (k :: ks)).validate = .ok () ∧
      ∃ sorted, run b (orderBy (k :: ks)) = .ok sorted ∧ sorted.records.Perm b.records ∧
        sorted.metadata = b.metadata ∧
        sorted.records.IsChain (fun before after =>
          orderRows (k :: ks) (row (k :: ks) after) (row (k :: ks) before) ≠ .lt) ∧
        sorted.records.Pairwise fun before after => k.Lacks after → k.Lacks before := by
  have hchain : (SortKey.sort (k :: ks) b.records).IsChain (MayFollow fun a b =>
      orderRows (k :: ks) (row (k :: ks) a) (row (k :: ks) b)) := by
    rw [sort_eq_mergeSort]
    exact isChain_mergeSort orderRows_asymm b.records
  have hfirst : (SortKey.sort (k :: ks) b.records).IsChain fun before after =>
      k.Lacks after → k.Lacks before := hchain.imp fun _ _ => lacks_of_mayFollow
  have : IsTrans Record fun before after => k.Lacks after → k.Lacks before :=
    ⟨fun _ _ _ h h' hlast => h (h' hlast)⟩
  exact ⟨rfl, _, rfl, sort_perm (k :: ks) b.records, rfl, hchain,
    List.isChain_iff_pairwise.1 hfirst⟩

end Stage

end StreamQuery
