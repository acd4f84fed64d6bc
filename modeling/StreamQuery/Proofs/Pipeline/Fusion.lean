import StreamQuery.Proofs.Pipeline.Meaning
set_option autoImplicit false

/-!
# Fusing stages

Two stages of one kind can be declared as one.  For HAVING stages this rests on what they have in
common with the conjunction: a record passes only where a predicate is true, and a conjunction is
true only where both sides are, whatever else a side may be or fail with (`Expr.eval_and_eq_true`).
A COMPUTATION stage goes through the whole batch before the next one starts, and fields in one stage
go through each record before the next one; both succeed on the same batches, though not with the
same error on the others.
-/

namespace StreamQuery

/-! ## Conjunctions -/

namespace Value

variable {v : Value}

theorem truth_eq_true_iff : v.truth = .ok (some true) ↔ v = boolean true := by
  cases v <;> simp [truth, asBool, Except.map]

end Value

namespace Expr

variable {lookup : Lookup} {r : Record} {p q : Expr}

/-- A conjunction is true exactly where both sides are. -/
theorem eval_and_eq_true : (binary p .and q).eval lookup r = .ok (.boolean true) ↔
    p.eval lookup r = .ok (.boolean true) ∧ q.eval lookup r = .ok (.boolean true) := by
  have htoValue (a b : Truth) :
      (a.and b).toValue = .boolean true ↔ a = some true ∧ b = some true := by
    rcases a with _ | _ | _ <;> rcases b with _ | _ | _ <;> simp [Truth.and, Truth.toValue]
  rw [eval, bind_eq_ok_iff]
  constructor
  · rintro ⟨l, hl, hrest⟩
    obtain ⟨a, ha, hrest⟩ := bind_eq_ok_iff.1 hrest
    split at hrest
    · cases hrest
    · obtain ⟨v, hv, hrest⟩ := bind_eq_ok_iff.1 hrest
      obtain ⟨b, hb, hboth⟩ := bind_eq_ok_iff.1 hrest
      obtain ⟨rfl, rfl⟩ := (htoValue a b).1 (Except.ok.inj hboth)
      obtain rfl := Value.truth_eq_true_iff.1 ha
      obtain rfl := Value.truth_eq_true_iff.1 hb
      exact ⟨hl, hv⟩
  · rintro ⟨hp, hq⟩
    refine ⟨_, hp, ?_⟩
    rw [hq]
    rfl

end Expr

/-! ## Stages of one kind -/

namespace Stage

variable {b b' : Batch}

/-- A record passes where the predicate is true. -/
theorem passes_iff {p : Expr} {r : Record} :
    passes p r = true ↔ p.eval Record.lookup r = .ok (.boolean true) := by
  unfold passes Expr.holds
  cases p.eval Record.lookup r with
  | error e => simp [bind, Except.bind]
  | ok v => cases v <;> simp [bind, Except.bind, Value.asBool, pure, Except.pure]

theorem passes_and (p q : Expr) (r : Record) :
    passes (.binary p .and q) r = (passes p r && passes q r) := by
  rw [Bool.eq_iff_iff, Bool.and_eq_true, passes_iff, passes_iff, passes_iff, Expr.eval_and_eq_true]

/-- COMPUTATION stages compute what one stage with the fields of all of them does. -/
theorem run_computations_iff (stages : List (List ComputedField)) :
    Pipeline.run ⟨stages.map computation⟩ b = .ok b' ↔
      run b (computation stages.flatten) = .ok b' := by
  have hone : [computation stages.flatten].foldlM run b = .ok b' ↔
      (stages.map computation).foldlM run b = .ok b' := by
    rw [foldlM_computation stages, ← List.map_singleton, foldlM_computation,
      List.flatten_singleton]
  rw [Pipeline.run, ← hone, List.foldlM_cons, bind_eq_ok_iff]
  simp [pure, Except.pure]

/-- CULLING stages remove what one stage with the names of all of them does. -/
theorem run_cullings (names : List (List String)) {union : List String}
    (hunion : ∀ name, name ∈ union ↔ name ∈ names.flatten) :
    Pipeline.run ⟨names.map culling⟩ b = run b (culling union) := by
  have hsame : names.flatten.contains = union.contains := by
    funext name
    rw [Bool.eq_iff_iff, List.contains_iff_mem, List.contains_iff_mem, hunion]
  rw [Pipeline.run, foldlM_culling, hsame]
  rfl

/-- HAVING stages keep the records that pass all of them. -/
theorem run_havings (predicates : List Expr) {p : Expr}
    (hp : ∀ r, passes p r = predicates.all fun predicate => passes predicate r) :
    Pipeline.run ⟨predicates.map having⟩ b = run b (having p) := by
  rw [Pipeline.run, foldlM_having, run, funext hp]

/-! ## Declarations -/

theorem validate_computation_iff {fields : List ComputedField} :
    (computation fields).validate = .ok () ↔
      fields ≠ [] ∧ ∀ f ∈ fields, Text.isBlankText f.name = false := by
  simp only [validate]
  split
  · rename_i h
    simp [List.isEmpty_iff.1 h]
  · rename_i hne
    rw [List.isEmpty_iff] at hne
    split
    · rename_i h
      obtain ⟨f, hf, hblank⟩ := List.any_eq_true.1 h
      exact ⟨nofun, fun h => nomatch (h.2 f hf).symm.trans hblank⟩
    · rename_i h
      simpa [hne] using h

theorem validate_culling_iff {fields : List String} :
    (culling fields).validate = .ok () ↔
      fields ≠ [] ∧ ∀ name ∈ fields, Text.isBlankText name = false := by
  simp only [validate]
  split
  · rename_i h
    rcases h with h | h
    · simp [List.isEmpty_iff.1 h]
    · obtain ⟨name, hname, hblank⟩ := List.any_eq_true.1 h
      exact ⟨nofun, fun h => nomatch (h.2 name hname).symm.trans hblank⟩
  · rename_i h
    simpa [not_or] using h

/-! ## Fusing two stages -/

/-- Two stages of one kind fuse.  HAVING stages keep, in either order, what one with the conjunction
of their predicates keeps, whatever the predicates are or fail with.  COMPUTATION stages succeed
exactly if one with the fields of both does, and with the same batch.  CULLING stages remove, in
either order, what one with the names of both does.  Stages that are valid fuse to a valid one. -/
theorem stages_fuse (b : Batch) :
    (∀ p q : Expr, ∃ kept, run b (having (.binary p .and q)) = .ok kept ∧
        Pipeline.run ⟨[having p, having q]⟩ b = .ok kept ∧
        Pipeline.run ⟨[having q, having p]⟩ b = .ok kept) ∧
      (∀ xs ys : List ComputedField,
        (∀ b', Pipeline.run ⟨[computation xs, computation ys]⟩ b = .ok b' ↔
          run b (computation (xs ++ ys)) = .ok b') ∧
        ((computation xs).validate = .ok () → (computation ys).validate = .ok () →
          (computation (xs ++ ys)).validate = .ok ())) ∧
      ∀ names more union : List String,
        (∀ name, name ∈ union ↔ name ∈ names ∨ name ∈ more) →
        (∃ culled, run b (culling union) = .ok culled ∧
          Pipeline.run ⟨[culling names, culling more]⟩ b = .ok culled ∧
          Pipeline.run ⟨[culling more, culling names]⟩ b = .ok culled) ∧
        ((culling names).validate = .ok () → (culling more).validate = .ok () →
          (culling union).validate = .ok ()) := by
  refine ⟨fun p q => ⟨_, rfl, ?_, ?_⟩, fun xs ys => ⟨fun b' => ?_, ?_⟩,
    fun names more union hunion => ⟨⟨_, rfl, ?_, ?_⟩, ?_⟩⟩
  · exact run_havings [p, q] fun r => by simp [passes_and]
  · exact run_havings [q, p] fun r => by simp [passes_and, Bool.and_comm]
  · have hboth : Pipeline.run ⟨[xs, ys].map computation⟩ b = .ok b' ↔
        run b (computation [xs, ys].flatten) = .ok b' := run_computations_iff [xs, ys]
    rwa [List.flatten_cons, List.flatten_singleton] at hboth
  · rw [validate_computation_iff, validate_computation_iff, validate_computation_iff]
    rintro ⟨hne, hxs⟩ ⟨-, hys⟩
    exact ⟨List.append_ne_nil_of_left_ne_nil hne ys, List.forall_mem_append.2 ⟨hxs, hys⟩⟩
  · exact run_cullings [names, more] fun name => by simp [hunion]
  · exact run_cullings [more, names] fun name => by simp [hunion, or_comm]
  · rw [validate_culling_iff, validate_culling_iff, validate_culling_iff]
    rintro ⟨hne, hnames⟩ ⟨-, hmore⟩
    obtain ⟨name, hname⟩ := List.exists_mem_of_ne_nil names hne
    refine ⟨List.ne_nil_of_mem ((hunion name).2 (.inl hname)), fun name hmem => ?_⟩
    exact ((hunion name).1 hmem).elim (hnames name) (hmore name)

/-- Two records, of which the second one has no amount. -/
def amounts : Batch :=
  .ofRecords [.ofList [("amount", .long 1), ("rate", .long 2)], .ofList [("rate", .long 3)]]

theorem stages_fuse_amounts :
    (∀ name, name ∈ ["amount", "rate", "sum"] ↔
        name ∈ ["amount", "rate"] ∨ name ∈ ["rate", "sum"]) ∧
      (∃ culled, run amounts (culling ["amount", "rate", "sum"]) = .ok culled ∧
        Pipeline.run ⟨[culling ["amount", "rate"], culling ["rate", "sum"]]⟩ amounts = .ok culled ∧
        Pipeline.run ⟨[culling ["rate", "sum"], culling ["amount", "rate"]]⟩ amounts
          = .ok culled) ∧
      ((culling ["amount", "rate"]).validate = .ok () ∧
        (culling ["rate", "sum"]).validate = .ok () ∧
        (culling ["amount", "rate", "sum"]).validate = .ok ()) ∧
      ((computation [⟨"sum", .column "amount"⟩]).validate = .ok () ∧
        (computation [⟨"double", .column "sum"⟩]).validate = .ok () ∧
        (computation [⟨"sum", .column "amount"⟩, ⟨"double", .column "sum"⟩]).validate
          = .ok ()) := by
  have hunion (name : String) : name ∈ ["amount", "rate", "sum"] ↔
      name ∈ ["amount", "rate"] ∨ name ∈ ["rate", "sum"] := by
    simp only [List.mem_cons, List.not_mem_nil, or_false]
    tauto
  obtain ⟨-, hcomputation, hculling⟩ := stages_fuse amounts
  obtain ⟨hculled, hvalid⟩ := hculling _ _ _ hunion
  have hnames : (culling ["amount", "rate"]).validate = .ok () := by decide +kernel
  have hmore : (culling ["rate", "sum"]).validate = .ok () := by decide +kernel
  have hsum : (computation [⟨"sum", .column "amount"⟩]).validate = .ok () := by decide +kernel
  have hdouble : (computation [⟨"double", .column "sum"⟩]).validate = .ok () := by decide +kernel
  exact ⟨hunion, hculled, ⟨hnames, hmore, hvalid hnames hmore⟩, hsum, hdouble,
    (hcomputation _ _).2 hsum hdouble⟩

/-- Two stages meet the missing amount of the second record first, and one stage the missing sum of
the first record. -/
example :
    Pipeline.run ⟨[computation [⟨"x", .column "amount"⟩], computation [⟨"y", .column "sum"⟩]]⟩
        amounts = .error (.lookup "amount" .absent) ∧
      run amounts (computation [⟨"x", .column "amount"⟩, ⟨"y", .column "sum"⟩])
        = .error (.lookup "sum" .absent) :=
  ⟨rfl, rfl⟩

end Stage

end StreamQuery
