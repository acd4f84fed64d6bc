import StreamQuery.Expr.Eval
import StreamQuery.Proofs.Outcomes
set_option autoImplicit false

/-!
# What an expression reads

An expression meets a record only where it looks up a name.  So two evaluations, of different
records or with different ways to resolve names, are related as their look-ups are, by any relation
that holds between equal outcomes and goes on from one operation to the next (`Propagates`).  Only
tests for NULL stop an error, and what the relation is worth there has to be known
(`Expr.eval_related`).  With equality as the relation, an expression reads nothing but the fields
that it names (`Expr.eval_congr_fields`).
-/

namespace StreamQuery

/-! ## Relations between outcomes -/

/-- A relation between outcomes that what goes on from them in the same way inherits. -/
structure Propagates (R : (α : Type) → Outcome α → Outcome α → Prop) : Prop where
  /-- An outcome is related to itself. -/
  refl : ∀ {α : Type} (x : Outcome α), R α x x
  /-- What goes on from related outcomes in related ways is related. -/
  bind : ∀ {α β : Type} {x y : Outcome α} {f g : α → Outcome β},
    R α x y → (∀ a, R β (f a) (g a)) → R β (x >>= f) (y >>= g)

theorem propagates_eq : Propagates fun _ x y => x = y where
  refl _ := rfl
  bind hxy hfg := by rw [hxy, funext hfg]

/-! ## Tests for NULL -/

namespace UnaryOperator

/-- The operators that ask whether there is a value. -/
def isNullTest : UnaryOperator → Bool
  | isNull | isNotNull => true
  | not | minus => false

end UnaryOperator

/-- Whether an operand counts as NULL: a field that cannot be looked up does. -/
def testNull : Outcome Value → Outcome Bool
  | .ok v => .ok v.isNull
  | .error e => if e.isLookup then .ok true else .error e

theorem testNull_lookup {e : QueryError} (h : e.isLookup = true) :
    testNull (.error e) = .ok true := by
  simp [testNull, h]

theorem testNull_error {e : QueryError} (h : e.isLookup = false) :
    testNull (.error e) = .error e := by
  simp [testNull, h]

namespace Expr

/-- The operands of the tests for NULL in an expression. -/
def nullTests : Expr → List Expr
  | column _ | literal _ _ | sizeOf _ => []
  | binary left _ right => left.nullTests ++ right.nullTests
  | unary op operand => if op.isNullTest then operand :: operand.nullTests else operand.nullTests
  | cast operand _ => operand.nullTests
  | nested inner => inner.nullTests

variable {lookup lookup' : Lookup} {r s : Record} {e : Expr}

/-- Either test for NULL is answered by whether its operand counts as NULL. -/
theorem eval_nullTest {op : UnaryOperator} (hop : op.isNullTest = true) (e : Expr) :
    (unary op e).eval lookup r = do
      let isNull ← testNull (e.eval lookup r)
      return .boolean (isNull == (op == .isNull)) := by
  cases op with
  | isNull | isNotNull =>
    rw [eval]
    cases e.eval lookup r with
    | ok v => cases h : v.isNull <;> simp [testNull, h, bind, Except.bind, pure, Except.pure]
    | error fault =>
      cases h : fault.isLookup <;> simp [testNull, h, bind, Except.bind, pure, Except.pure]
  | not | minus => cases hop

/-! ## Related evaluations -/

/-- Evaluations are related as the look-ups of the names that occur are, if the tests for NULL do
not part what is related. -/
theorem eval_related {R : (α : Type) → Outcome α → Outcome α → Prop} (hR : Propagates R)
    (hfields : ∀ name ∈ e.fieldOccurrences, R Value (lookup name r) (lookup' name s))
    (htests : ∀ x ∈ e.nullTests, R Value (x.eval lookup r) (x.eval lookup' s) →
      R Bool (testNull (x.eval lookup r)) (testNull (x.eval lookup' s))) :
    R Value (e.eval lookup r) (e.eval lookup' s) := by
  induction e with
  | column name => exact hfields name List.mem_cons_self
  | literal text kind => exact hR.refl _
  | sizeOf field =>
    simp only [eval]
    exact hR.bind (hfields field List.mem_cons_self) fun _ => hR.refl _
  | nested inner ih => exact ih hfields htests
  | cast operand kind ih =>
    simp only [eval]
    exact hR.bind (ih hfields htests) fun _ => hR.refl _
  | unary op operand ih =>
    cases hop : op.isNullTest with
    | true =>
      -- An error may end here, so the relation has to be given for what is made of it.
      have hnull : (unary op operand).nullTests = operand :: operand.nullTests := by
        rw [nullTests, if_pos hop]
      rw [hnull, List.forall_mem_cons] at htests
      rw [eval_nullTest hop, eval_nullTest hop]
      exact hR.bind (htests.1 (ih hfields htests.2)) fun _ => hR.refl _
    | false =>
      have hnull : (unary op operand).nullTests = operand.nullTests := by
        rw [nullTests, hop]
        rfl
      rw [hnull] at htests
      cases op with
      | not | minus =>
        simp only [eval]
        exact hR.bind (ih hfields htests) fun _ => hR.refl _
      | isNull | isNotNull => cases hop
  | binary left op right ihl ihr =>
    rw [fieldOccurrences, List.forall_mem_append] at hfields
    rw [nullTests, List.forall_mem_append] at htests
    have hleft := ihl hfields.1 htests.1
    have hright := ihr hfields.2 htests.2
    cases op with
    | and | or =>
      simp only [eval]
      refine hR.bind hleft fun _ => hR.bind (hR.refl _) fun a => ?_
      -- Both sides decide alike whether the right operand is reached.
      split
      · exact hR.refl _
      · exact hR.bind hright fun _ => hR.refl _
    | _ =>
      simp only [eval]
      exact hR.bind hleft fun _ => hR.bind hright fun _ => hR.refl _

end Expr

/-! ## Names -/

/-- The part of a name before its first dot. -/
def firstSegment (name : String) : String := .ofList (name.toList.takeWhile (· ≠ '.'))

/-- A path starts with what stands before the first dot. -/
theorem head?_splitDots (cs : List Char) :
    (splitDots cs).head? = some (cs.takeWhile (· ≠ '.')) := by
  induction cs with
  | nil => rfl
  | cons c rest ih =>
    by_cases hc : c = '.'
    · simp [splitDots, hc]
    · obtain ⟨more, hsplit⟩ := List.head?_eq_some_iff.1 ih
      simp [splitDots, hc, hsplit]

/-- A name is resolved by the field of that name and the field that a path starts at. -/
theorem Record.lookup_congr {r s : Record} {name : String} (hname : r.get? name = s.get? name)
    (hfirst : r.get? (firstSegment name) = s.get? (firstSegment name)) :
    Record.lookup name r = Record.lookup name s := by
  simp only [Record.lookup, hname]
  cases s.get? name with
  | some v => rfl
  | none =>
    have hhead := head?_splitDots name.toList
    cases hsplit : splitDots name.toList with
    | nil => rfl
    | cons head path =>
      cases path with
      | nil => rfl
      | cons next rest =>
        rw [hsplit] at hhead
        have hfield : String.ofList head = firstSegment name := by
          rw [Option.some.inj hhead, firstSegment]
        simp only [Record.follow, hfield, hfirst]

/-- The way to resolve names against a record, and against a schema where there is one. -/
def Lookup.withSchema : Option Schema → Lookup
  | none => Record.lookup
  | some schema => schema.lookup

theorem Lookup.withSchema_congr (schema : Option Schema) {r s : Record} {name : String}
    (h : Record.lookup name r = Record.lookup name s) :
    Lookup.withSchema schema name r = Lookup.withSchema schema name s := by
  cases schema with
  | none => exact h
  | some schema => simp only [withSchema, Schema.lookup, h]

namespace Expr

theorem nodup_eraseDups : ∀ names : List String, names.eraseDups.Nodup
  | [] => List.nodup_nil
  | name :: names => by
    rw [List.eraseDups_cons, List.nodup_cons, List.mem_eraseDups]
    exact ⟨by simp, nodup_eraseDups _⟩
termination_by names => names.length
decreasing_by exact Nat.lt_succ_of_le (List.length_filter_le _ _)

/-- An expression reads only the fields that it names.  On records with the same fields under those
names, and under the first segments of those names, it has the same value or the same error, with
or without a schema; and each name is listed once. -/
theorem eval_congr_fields (e : Expr) :
    (∀ (schema : Option Schema) (r s : Record),
        (∀ name ∈ e.referencedFields, r.get? name = s.get? name ∧
          r.get? (firstSegment name) = s.get? (firstSegment name)) →
        e.eval (.withSchema schema) r = e.eval (.withSchema schema) s) ∧
      e.referencedFields.Nodup := by
  refine ⟨fun schema r s hagree => ?_, nodup_eraseDups _⟩
  refine eval_related propagates_eq (fun name hname => ?_) fun x _ h => congrArg testNull h
  obtain ⟨hfield, hfirst⟩ := hagree name (List.mem_eraseDups.2 hname)
  exact Lookup.withSchema_congr schema (Record.lookup_congr hfield hfirst)

/-- A trade, with a note on it. -/
def trade (note : Value) : Record :=
  .ofList [("note", note), ("stats", .map [("high", .long 9)]), ("tags", .list [.string "tech"])]

/-- Whether there are more tags than the highest price says, or a first low price is known. -/
def unusual : Expr :=
  binary (binary (sizeOf "tags") .greaterThan (column "stats.high")) .or
    (unary .isNotNull (binary (column "stats.low.first") .add (sizeOf "tags")))

theorem eval_congr_fields_notes :
    (∀ name ∈ unusual.referencedFields,
        (trade (.long 1)).get? name = (trade .null).get? name ∧
          (trade (.long 1)).get? (firstSegment name) = (trade .null).get? (firstSegment name)) ∧
      unusual.eval (.withSchema (some (.ofList [("tags", .list)]))) (trade (.long 1))
        = unusual.eval (.withSchema (some (.ofList [("tags", .list)]))) (trade .null) ∧
      unusual.referencedFields.Nodup := by
  have hfields : unusual.referencedFields = ["tags", "stats.high", "stats.low.first"] := by
    decide +kernel
  have hagree : ∀ name ∈ unusual.referencedFields,
      (trade (.long 1)).get? name = (trade .null).get? name ∧
        (trade (.long 1)).get? (firstSegment name) = (trade .null).get? (firstSegment name) := by
    rw [hfields]
    simp only [List.forall_mem_cons, List.not_mem_nil, false_implies, implies_true, and_true]
    exact ⟨⟨rfl, rfl⟩, ⟨rfl, rfl⟩, rfl, rfl⟩
  exact ⟨hagree, (eval_congr_fields unusual).1 _ _ _ hagree, (eval_congr_fields unusual).2⟩

end Expr

end StreamQuery
