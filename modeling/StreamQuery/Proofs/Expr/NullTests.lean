import StreamQuery.Proofs.Expr.Congruence
import StreamQuery.Proofs.Expr.Paths
set_option autoImplicit false

/-!
# Absent fields under tests for NULL

A test for NULL takes a field that cannot be looked up for NULL.  It does so for its operand as a
whole: the operand is given up at the absent field, where it would go on with NULL in that field.
The two come to the same exactly if the operand counts as NULL in the end when it goes on
(`Expr.nullTest_absent`).  AND and OR may decide against NULL (`Expr.absent_is_not_null`); the other
operators pass NULL on or fail for it (`Expr.eval_standsFor`), so without connectives a test that is
answered for NULL is answered alike for the absent field.
-/

namespace StreamQuery

/-! ## Looking up an absent field -/

/-- What looking up a name comes to where a field is absent, and what it comes to where that field
is NULL. -/
inductive AbsentOrNull (field : String) : Outcome Value → Outcome Value → Prop
  /-- The name leads elsewhere. -/
  | same (x : Outcome Value) : AbsentOrNull field x x
  /-- The name is that of the field. -/
  | name : AbsentOrNull field (.error (.lookup field .absent)) (.ok .null)
  /-- The name is a path that starts at the field. -/
  | path (name : String) (fault fault' : LookupFault) :
      AbsentOrNull field (.error (.lookup name fault)) (.error (.lookup name fault'))

theorem splitDots_of_no_dot {cs : List Char} (h : '.' ∉ cs) : splitDots cs = [cs] := by
  rw [splitDots_eq_splitOn, List.splitOn_eq_singleton h]

section AbsentField

variable {r : Record} {field : String} (hdots : '.' ∉ field.toList) (habsent : r.get? field = none)

include hdots habsent

theorem Record.lookup_set_null (name : String) :
    AbsentOrNull field (Record.lookup name r) (Record.lookup name (r.set field .null)) := by
  by_cases hname : name = field
  · subst hname
    simp only [Record.lookup, habsent, splitDots_of_no_dot hdots, Record.get?_set_self]
    exact .name
  · simp only [Record.lookup, Record.get?_set_of_ne r (Ne.symm hname) .null]
    cases r.get? name with
    | some v => exact .same _
    | none =>
      rcases splitDots name.toList with _ | ⟨head, _ | ⟨next, rest⟩⟩
      · exact .same _
      · exact .same _
      · by_cases hhead : String.ofList head = field
        · simp only [Record.follow, hhead, habsent, Record.get?_set_self]
          exact .path name .absent (.notIndexable .null)
        · simp only [Record.follow, Record.get?_set_of_ne r (Ne.symm hhead)]
          exact .same _

theorem Lookup.withSchema_set_null (schema : Option Schema) (name : String) :
    AbsentOrNull field (withSchema schema name r)
      (withSchema schema name (r.set field .null)) := by
  have h := Record.lookup_set_null hdots habsent name
  cases schema with
  | none => exact h
  | some schema =>
    simp only [withSchema, Schema.lookup]
    generalize Record.lookup name r = x at h ⊢
    generalize Record.lookup name (r.set field .null) = y at h ⊢
    cases h with
    | same => exact .same _
    -- NULL is of every declared kind.
    | name => cases schema.kind? name <;> exact .name
    | path => exact .path _ _ _

end AbsentField

/-! ## Operands that are given up -/

theorem testNull_eq_true_iff {y : Outcome Value} :
    testNull y = .ok true ↔ y = .ok .null ∨ ∃ e, y = .error e ∧ e.isLookup = true := by
  cases y with
  | ok v => simp [testNull, Value.isNull_iff]
  | error e => cases h : e.isLookup <;> simp [testNull, h]

/-- Two outcomes are the same, or the first one is the lack of a field, or both are look-ups that
failed. -/
def SameUnlessAbsent (field : String) (α : Type) (x y : Outcome α) : Prop :=
  x = y ∨ x = .error (.lookup field .absent) ∨
    ∃ e e', x = .error e ∧ y = .error e' ∧ e.isLookup = true ∧ e'.isLookup = true

theorem propagates_sameUnlessAbsent (field : String) : Propagates (SameUnlessAbsent field) where
  refl _ := .inl rfl
  bind := by
    rintro α β x y f g (rfl | rfl | ⟨e, e', rfl, rfl, he, he'⟩) hfg
    · cases x with
      | error e => exact .inl rfl
      | ok a => exact hfg a
    · exact .inr (.inl rfl)
    · exact .inr (.inr ⟨e, e', rfl, rfl, he, he'⟩)

theorem AbsentOrNull.sameUnlessAbsent {field : String} {x y : Outcome Value}
    (h : AbsentOrNull field x y) : SameUnlessAbsent field Value x y := by
  cases h with
  | same => exact .inl rfl
  | name => exact .inr (.inl rfl)
  | path name fault fault' => exact .inr (.inr ⟨_, _, rfl, rfl, rfl, rfl⟩)

/-- Outcomes that are the same unless a field is absent count alike as NULL, if the second one
counts as NULL where the first one lacks the field. -/
theorem SameUnlessAbsent.testNull_eq {field : String} {x y : Outcome Value}
    (h : SameUnlessAbsent field Value x y)
    (hnull : x = .error (.lookup field .absent) → testNull y = .ok true) :
    testNull x = testNull y := by
  rcases h with rfl | rfl | ⟨e, e', rfl, rfl, he, he'⟩
  · rfl
  · rw [hnull rfl]
    rfl
  · rw [testNull_lookup he, testNull_lookup he']

/-- What an outcome is worth in place of another one: the same, a failed look-up for what counts as
NULL, or anything for an error other than a failed look-up. -/
inductive StandsFor : Outcome Value → Outcome Value → Prop
  | same (x : Outcome Value) : StandsFor x x
  | missing {e : QueryError} {y : Outcome Value} (he : e.isLookup = true)
      (hy : testNull y = .ok true) : StandsFor (.error e) y
  | failing {x : Outcome Value} {e : QueryError} (he : e.isLookup = false) :
      StandsFor x (.error e)

/-- An operation answers NULL for NULL, or fails for it. -/
def PassesNull (k : Value → Outcome Value) : Prop :=
  k .null = .ok .null ∨ ∃ e, k .null = .error e ∧ e.isLookup = false

theorem AbsentOrNull.standsFor {field : String} {x y : Outcome Value}
    (h : AbsentOrNull field x y) : StandsFor x y := by
  cases h with
  | same => exact .same _
  | name => exact .missing rfl rfl
  | path => exact .missing rfl rfl

namespace StandsFor

variable {x x' y y' : Outcome Value}

theorem of_passesNull {k : Value → Outcome Value} (hk : PassesNull k) {e : QueryError}
    (he : e.isLookup = true) : StandsFor (.error e) (k .null) := by
  rcases hk with h | ⟨e', h, he'⟩ <;> rw [h]
  · exact .missing he rfl
  · exact .failing he'

theorem bind {k : Value → Outcome Value} (hk : PassesNull k) (h : StandsFor x y) :
    StandsFor (x >>= k) (y >>= k) := by
  cases h with
  | same => exact .same _
  | missing he hy =>
    rcases testNull_eq_true_iff.1 hy with rfl | ⟨e', rfl, he'⟩
    · exact of_passesNull hk he
    · exact .missing he (testNull_lookup he')
  | failing he => exact .failing he

/-- Both operands pass on what stands for NULL; the second one is not reached if the first one is
given up, and may fail where it is. -/
theorem bind_bind {k : Value → Value → Outcome Value} (hleft : ∀ w, PassesNull fun v => k v w)
    (hright : ∀ v, PassesNull (k v)) (hx : StandsFor x x') (hy : StandsFor y y') :
    StandsFor (x >>= fun v => y >>= k v) (x' >>= fun v => y' >>= k v) := by
  cases hx with
  | same =>
    cases x with
    | error e => exact .same _
    | ok v => exact hy.bind (hright v)
  | missing he hx' =>
    rcases testNull_eq_true_iff.1 hx' with rfl | ⟨e', rfl, he'⟩
    · -- Behind NULL the second operand is evaluated, and may fail in its own way.
      cases y' with
      | ok w => exact of_passesNull (hleft w) he
      | error e' =>
        cases he' : e'.isLookup with
        | true => exact .missing he (testNull_lookup he')
        | false => exact .failing he'
    · exact .missing he (testNull_lookup he')
  | failing he => exact .failing he

/-- What stands for an outcome counts as NULL if that does, unless that is an error. -/
theorem testNull_eq_or (h : StandsFor x y) :
    testNull x = testNull y ∨ ∃ e, testNull y = .error e ∧ e.isLookup = false := by
  cases h with
  | same => exact .inl rfl
  | missing he hy => exact .inl ((testNull_lookup he).trans hy.symm)
  | failing he => exact .inr ⟨_, testNull_error he, he⟩

end StandsFor

/-! ## Operators on NULL -/

namespace Value

theorem passesNull_cast (kind : Kind) : PassesNull fun v => v.cast kind :=
  .inl (if_pos (.inr rfl))

theorem passesNull_size : PassesNull size := .inr ⟨_, rfl, rfl⟩

theorem passesNull_negate : PassesNull negate := .inr ⟨_, rfl, rfl⟩

theorem passesNull_not : PassesNull fun v => do
    let t ← v.truth
    return t.not.toValue :=
  .inl rfl

/-- A comparison of two values, or their sum, difference, product or quotient. -/
def combine (op : BinaryOperator) (l r : Value) : Outcome Value :=
  if op.isArithmetic then arithmetic op l r else comparison op l r

theorem passesNull_combine_left (op : BinaryOperator) (w : Value) :
    PassesNull fun v => combine op v w := by
  cases hop : op.isArithmetic with
  | true =>
    have hnone : NumberPair.of? .null w = none := by cases w <;> rfl
    exact .inr ⟨_, by simp only [combine, hop, arithmetic, hnone, if_true]; rfl, rfl⟩
  | false => exact .inl (by simp [combine, hop, comparison, isNull])

theorem passesNull_combine_right (op : BinaryOperator) (v : Value) :
    PassesNull (combine op v) := by
  cases hop : op.isArithmetic with
  | true =>
    have hnone : NumberPair.of? v .null = none := by cases v <;> rfl
    exact .inr ⟨_, by simp only [combine, hop, arithmetic, hnone, if_true]; rfl, rfl⟩
  | false => exact .inl (by simp [combine, hop, comparison, isNull])

end Value

namespace Expr

/-- Whether there is an AND or an OR in an expression. -/
def hasConnective : Expr → Bool
  | column _ | literal _ _ | sizeOf _ => false
  | binary left op right => op == .and || op == .or || left.hasConnective || right.hasConnective
  | unary _ operand => operand.hasConnective
  | cast operand _ => operand.hasConnective
  | nested inner => inner.hasConnective

variable {lookup lookup' : Lookup} {r s : Record} {e : Expr}

/-- An evaluation without connectives stands for another one if the look-ups do. -/
theorem eval_standsFor (hlookup : ∀ name, StandsFor (lookup name r) (lookup' name s))
    (he : e.hasConnective = false) : StandsFor (e.eval lookup r) (e.eval lookup' s) := by
  induction e with
  | column name => exact hlookup name
  | literal text kind => exact .same _
  | sizeOf field =>
    simp only [eval]
    exact (hlookup field).bind Value.passesNull_size
  | nested inner ih => exact ih he
  | cast operand kind ih =>
    simp only [eval]
    exact (ih he).bind (Value.passesNull_cast kind)
  | unary op operand ih =>
    cases hop : op.isNullTest with
    | true =>
      rw [eval_nullTest hop, eval_nullTest hop]
      rcases (ih he).testNull_eq_or with h | ⟨fault, h, hfault⟩
      · rw [h]
        exact .same _
      · rw [h]
        exact .failing hfault
    | false =>
      cases op with
      | not =>
        simp only [eval]
        exact (ih he).bind Value.passesNull_not
      | minus =>
        simp only [eval]
        exact (ih he).bind Value.passesNull_negate
      | isNull | isNotNull => cases hop
  | binary left op right ihl ihr =>
    simp only [hasConnective, Bool.or_eq_false_iff] at he
    obtain ⟨⟨hop, hleft⟩, hright⟩ := he
    have hboth := StandsFor.bind_bind (Value.passesNull_combine_left op)
      (Value.passesNull_combine_right op) (ihl hleft) (ihr hright)
    cases op with
    | and | or => simp at hop
    | _ =>
      simp only [eval]
      exact hboth

/-- An expression that cannot be evaluated for want of a field counts as NULL where the field is
NULL. -/
def CountsAsNull (lookup : Lookup) (r : Record) (field : String) (e : Expr) : Prop :=
  e.eval lookup r = .error (.lookup field .absent) →
    testNull (e.eval lookup (r.set field .null)) = .ok true

/-- Evaluations where a field is absent and where it is NULL are the same until the absent field is
met, if the tests for NULL on the way take their operands for NULL alike. -/
theorem eval_set_null (schema : Option Schema) {field : String} (hdots : '.' ∉ field.toList)
    (habsent : r.get? field = none)
    (htests : ∀ x ∈ e.nullTests, x.CountsAsNull (.withSchema schema) r field) :
    SameUnlessAbsent field Value (e.eval (.withSchema schema) r)
      (e.eval (.withSchema schema) (r.set field .null)) := by
  refine eval_related (propagates_sameUnlessAbsent field) (fun name _ => ?_) fun x hx h => ?_
  · exact (Lookup.withSchema_set_null hdots habsent schema name).sameUnlessAbsent
  · exact .inl (h.testNull_eq (htests x hx))

/-- A test for NULL reads an absent field as NULL, with or without a schema, exactly if its operand
counts as NULL where the field is NULL, supposing that it cannot be evaluated where the field is
absent and that the tests inside the operand read the field in this way as well.  Without AND and OR
an answer for NULL is the answer for the absent field. -/
theorem nullTest_absent (schema : Option Schema) {field : String} (hdots : '.' ∉ field.toList)
    (habsent : r.get? field = none) {op : UnaryOperator} (hop : op.isNullTest = true) (e : Expr) :
    ((∀ x ∈ e.nullTests, x.CountsAsNull (.withSchema schema) r field) →
        ((unary op e).eval (.withSchema schema) r
            = (unary op e).eval (.withSchema schema) (r.set field .null) ↔
          e.CountsAsNull (.withSchema schema) r field)) ∧
      (e.hasConnective = false → ∀ v,
        (unary op e).eval (.withSchema schema) (r.set field .null) = .ok v →
          (unary op e).eval (.withSchema schema) r = .ok v) := by
  rw [eval_nullTest hop, eval_nullTest hop]
  constructor
  · intro htests
    constructor
    · intro h hfails
      -- The test is answered where the field is absent, and so it is where the field is NULL.
      rw [hfails] at h
      obtain ⟨isNull, hnull, hanswer⟩ := bind_eq_ok_iff.1 h.symm
      rw [hnull]
      have hsame : (isNull == (op == .isNull)) = (true == (op == .isNull)) :=
        Value.boolean.inj (Except.ok.inj hanswer)
      cases isNull with
      | true => rfl
      | false => cases hisNull : op == .isNull <;> simp [hisNull] at hsame
    · intro hnull
      rw [(eval_set_null schema hdots habsent htests).testNull_eq hnull]
  · intro hconnective v hv
    have hstands : StandsFor (e.eval (.withSchema schema) r)
        (e.eval (.withSchema schema) (r.set field .null)) :=
      eval_standsFor (fun name => (Lookup.withSchema_set_null hdots habsent schema name).standsFor)
        hconnective
    rcases hstands.testNull_eq_or with h | ⟨fault, h, -⟩
    · rw [h, hv]
    · rw [h] at hv
      cases hv

/-- A price without a quantity. -/
def offer : Record := .ofList [("price", .long 5)]

/-- Quantities are numbers. -/
def numericQuantity : Schema := .ofList [("qty", .long)]

/-- Whether the quantity is below the price but not known. -/
def dubious : Expr :=
  binary (binary (column "qty") .lessThan (column "price")) .notEqual
    (unary .isNotNull (column "qty"))

/-- Both comparisons are given up for want of the quantity, and are NULL where it is NULL. -/
theorem nullTest_absent_offer :
    ('.' ∉ "qty".toList ∧ offer.get? "qty" = none ∧ UnaryOperator.isNotNull.isNullTest = true ∧
        (∀ x ∈ dubious.nullTests,
          x.CountsAsNull (.withSchema (some numericQuantity)) offer "qty") ∧
        dubious.CountsAsNull (.withSchema (some numericQuantity)) offer "qty" ∧
        dubious.hasConnective = false) ∧
      (unary .isNotNull dubious).eval (.withSchema (some numericQuantity)) offer
        = (unary .isNotNull dubious).eval (.withSchema (some numericQuantity))
            (offer.set "qty" .null) ∧
      (unary .isNotNull dubious).eval (.withSchema (some numericQuantity)) (offer.set "qty" .null)
        = .ok (.boolean false) ∧
      (unary .isNotNull dubious).eval (.withSchema (some numericQuantity)) offer
        = .ok (.boolean false) := by
  have hdots : '.' ∉ "qty".toList := by decide
  have habsent : offer.get? "qty" = none := rfl
  have htests : ∀ x ∈ dubious.nullTests,
      x.CountsAsNull (.withSchema (some numericQuantity)) offer "qty" := by
    intro x hx _
    obtain rfl : x = column "qty" := List.mem_singleton.1 hx
    rfl
  have hnull : dubious.CountsAsNull (.withSchema (some numericQuantity)) offer "qty" := fun _ => rfl
  have hfalse : (unary .isNotNull dubious).eval (.withSchema (some numericQuantity))
      (offer.set "qty" .null) = .ok (.boolean false) := rfl
  have hop : UnaryOperator.isNotNull.isNullTest = true := rfl
  obtain ⟨hiff, hvalue⟩ := nullTest_absent (some numericQuantity) hdots habsent hop dubious
  exact ⟨⟨hdots, habsent, hop, htests, hnull, rfl⟩, (hiff htests).2 hnull, hfalse,
    hvalue rfl _ hfalse⟩

/-- A field together with FALSE. -/
def fieldAndFalse : Expr := nested (binary (column "f") .and (literal "false" .boolean))

/-- The conjunction is given up for want of the field, though it is FALSE where the field is
NULL. -/
theorem absent_is_not_null :
    ('.' ∉ "f".toList ∧ Record.empty.get? "f" = none) ∧
      (unary .isNull fieldAndFalse).eval Record.lookup .empty = .ok (.boolean true) ∧
      (unary .isNull fieldAndFalse).eval Record.lookup (Record.empty.set "f" .null)
        = .ok (.boolean false) :=
  ⟨⟨by decide, rfl⟩, rfl, rfl⟩

/-- A sum is given up for want of a field, and fails where the field is NULL. -/
example :
    (unary .isNull (binary (column "f") .add (literal "1" .long))).eval Record.lookup .empty
        = .ok (.boolean true) ∧
      (unary .isNull (binary (column "f") .add (literal "1" .long))).eval Record.lookup
          (Record.empty.set "f" .null) = .error (.unsupported "+" "NULL") :=
  ⟨rfl, rfl⟩

end Expr

end StreamQuery
