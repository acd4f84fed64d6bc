set_option autoImplicit false

/-!
# Merge sort

A list is cut in the middle, both halves are sorted, and the sorted halves are merged;
an item of the right half goes first only if it is less.  Which order results is
determined also for comparisons that are not transitive, and equal items keep their
order.
-/

namespace StreamQuery

/-- Sorts a list. -/
def mergeSort {α : Type} (order : α → α → Ordering) (items : List α) : List α :=
  if items.length ≤ 1 then items
  else
    let half := items.length / 2
    List.merge (mergeSort order (items.take half)) (mergeSort order (items.drop half))
      fun left right => order right left != .lt
termination_by items.length
decreasing_by
  · simp only [List.length_take]
    omega
  · simp only [List.length_drop]
    omega

/-- Sorting loses nothing and adds nothing. -/
theorem mergeSort_perm {α : Type} (order : α → α → Ordering) (items : List α) :
    (mergeSort order items).Perm items := by
  induction items using mergeSort.induct with
  | case1 items h => rw [mergeSort, if_pos h]
  | case2 items h half ihl ihr =>
    rw [mergeSort, if_neg h]
    refine (List.merge_perm_append _).trans ?_
    exact (ihl.append ihr).trans (List.Perm.of_eq (List.take_append_drop half items))

end StreamQuery
