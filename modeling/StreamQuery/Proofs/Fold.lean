set_option autoImplicit false

/-!
# Folding values into the first of them

What several values make under an operation is the first of them with the others folded in.
For an operation that is associative and commutative neither the order of the values nor
how they are put into parts makes a difference.
-/

namespace StreamQuery

variable {α : Type} (op : α → α → α)

/-- The first of some values with the others folded in, if there are any. -/
def foldAll? : List α → Option α
  | [] => none
  | a :: rest => some (rest.foldl op a)

/-- Values behind others may be folded on their own first. -/
theorem foldl_append_cons [Std.Associative op] (a : α) (as : List α) (b : α) (bs : List α) :
    (as ++ b :: bs).foldl op a = op (as.foldl op a) (bs.foldl op b) := by
  rw [List.foldl_append, List.foldl_cons, List.foldl_assoc]

/-- The order of the values makes no difference. -/
theorem foldAll?_perm [Std.Associative op] [Std.Commutative op] {as bs : List α}
    (h : as.Perm bs) : foldAll? op as = foldAll? op bs := by
  induction h with
  | nil => rfl
  | swap a b rest =>
    have hcomm : op b a = op a b := Std.Commutative.comm b a
    show some (rest.foldl op (op b a)) = some (rest.foldl op (op a b))
    rw [hcomm]
  | trans _ _ ih ih' => exact ih.trans ih'
  | @cons a as bs _ ih =>
    cases as with
    | nil =>
      cases bs with
      | nil => rfl
      | cons c bs => cases ih
    | cons b as =>
      cases bs with
      | nil => cases ih
      | cons c bs =>
        have hrest : as.foldl op b = bs.foldl op c := Option.some.inj ih
        show some (as.foldl op (op a b)) = some (bs.foldl op (op a c))
        rw [List.foldl_assoc, List.foldl_assoc, hrest]

end StreamQuery
