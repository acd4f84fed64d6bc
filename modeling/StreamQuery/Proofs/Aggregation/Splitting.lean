import StreamQuery.Proofs.Aggregation.Groups
set_option autoImplicit false

/-!
# Splitting a stream among several GROUP BYs

A stream may be split among any number of GROUP BYs that compute the same.  Each takes its
part in any order, is read at any time, and is in the end combined into another one, along
any tree.  The last of them has the result that a single GROUP BY has for the whole stream.
-/

namespace StreamQuery

/-- The state that a successful operation leaves behind. -/
def Transition.stateAfter {σ α : Type} (t : Transition σ α) : Outcome σ := t.1.map fun _ => t.2

@[simp] theorem Transition.stateAfter_done {σ α : Type} (a : α) (s : σ) :
    (Transition.done a s).stateAfter = .ok s := rfl

namespace GroupBy

/-! ## Plans -/

/-- How a GROUP BY comes to hold a stream: it takes records, is read, and takes the bytes of others
that came about in the same way. -/
inductive Plan where
  | start
  | consume (p : Plan) (r : Record)
  | result (p : Plan)
  | data (p : Plan)
  | combine (p other : Plan)

/-- The bytes of the JSON that would be sent. -/
def payloadLength (q : GroupBy) : Nat :=
  match (Sketch.result q.sketch.sketch).1 with
  | .ok t => t.toJson.bytes.length
  | .error _ => 0

namespace Plan

/-- The records that all GROUP BYs of a plan take. -/
def records : Plan → List Record
  | start => []
  | consume p r => p.records ++ [r]
  | result p | data p => p.records
  | combine p other => p.records ++ other.records

/-- The plan of a single GROUP BY that takes records and is not read. -/
def single (rs : List Record) : Plan := rs.foldl consume start

/-- Carries a plan out; all GROUP BYs start from the same one. -/
def run (q₀ : GroupBy) : Plan → Outcome GroupBy
  | start => .ok q₀
  | consume p r => do (← p.run q₀).consume r |>.stateAfter
  | result p => do (← p.run q₀).result.stateAfter
  | data p => do return (← p.run q₀).data.2
  | combine p other => do
    let q ← p.run q₀
    let bs ← (← other.run q₀).data.1
    (q.combine bs).stateAfter

/-- The result in the end. -/
def answer (q₀ : GroupBy) (p : Plan) : Outcome Batch := do (← p.run q₀).result.1

/-- The length of all that is sent fits its header. -/
def payloadsFit (q₀ : GroupBy) : Plan → Bool
  | start => true
  | consume p _ | result p | data p => p.payloadsFit q₀
  | combine p other =>
    p.payloadsFit q₀ && other.payloadsFit q₀ &&
      match other.run q₀ with
      | .ok q => q.payloadLength < 256 ^ Bytes.headerSize
      | .error _ => true

theorem records_foldl_consume (p : Plan) (rs : List Record) :
    (rs.foldl consume p).records = p.records ++ rs := by
  induction rs generalizing p with
  | nil => rw [List.append_nil, List.foldl_nil]
  | cons r rs ih =>
    rw [List.foldl_cons, ih, records, List.append_assoc]
    rfl

@[simp] theorem records_single (rs : List Record) : (single rs).records = rs :=
  records_foldl_consume start rs

@[simp] theorem payloadsFit_single (q₀ : GroupBy) (rs : List Record) :
    (single rs).payloadsFit q₀ = true := by
  have hfoldl (p : Plan) : (rs.foldl consume p).payloadsFit q₀ = p.payloadsFit q₀ := by
    induction rs generalizing p with
    | nil => rfl
    | cons r rs ih => exact ih (consume p r)
  exact hfoldl start

/-! ## Carrying a plan out -/

variable {g : Grouping} {capacity : Nat} {stream : List Record} {q₀ : GroupBy}

/-- What is sent is read back. -/
theorem ofBytes_of_payloadLength {q : GroupBy} {t : HashSample Group} {k : Sketch Group}
    {rs : List Record} (hcap : max capacity 1 < 2 ^ 64) (hsuits : ∀ r ∈ rs, g.Suits r)
    (hread : Sketch.result q.sketch.sketch = .done t k)
    (ht : SampleOf g.offering capacity rs HashSample.noBound t)
    (hlen : q.payloadLength < 256 ^ Bytes.headerSize) :
    ∃ bs, t.toBytes = .ok bs ∧ HashSample.ofBytes bs = .ok (t, bs.length) := by
  have hpayload : t.toJson.bytes.length < 256 ^ Bytes.headerSize := by
    rw [payloadLength, hread] at hlen
    exact hlen
  refine ⟨_, if_pos hpayload, ?_⟩
  have hback := HashSample.ofBytes_toBytes (if_pos hpayload) (ht.capacity_eq ▸ hcap)
    (Grouping.carried_entries ht hsuits) (by decide) []
  rw [List.append_nil] at hback
  exact hback

/-- A plan succeeds, and the last GROUP BY holds all its records. -/
theorem run_holds (lawful : g.offering.Lawful (· ∈ stream)) (hpolicy : g.policy = .skip)
    (hcap : max capacity 1 < 2 ^ 64) (hsuits : ∀ r ∈ stream, g.Suits r)
    (hstart : Holds g capacity [] q₀) (p : Plan) (hmem : ∀ r ∈ p.records, r ∈ stream)
    (hfit : p.payloadsFit q₀ = true) : ∃ q, p.run q₀ = .ok q ∧ Holds g capacity p.records q := by
  induction p with
  | start => exact ⟨q₀, rfl, hstart⟩
  | consume p r ih =>
    obtain ⟨q, hrun, hq⟩ := ih (fun r' hr' => hmem r' (List.mem_append_left _ hr')) hfit
    have hr : r ∈ stream := hmem r (List.mem_append_right _ List.mem_cons_self)
    obtain ⟨q', hconsume, hq'⟩ := hq.consume lawful hpolicy (hsuits r hr) hmem
    refine ⟨q', ?_, hq'⟩
    rw [run, hrun]
    show (q.consume r).stateAfter = _
    rw [hconsume, Transition.stateAfter_done]
  | result p ih =>
    obtain ⟨q, hrun, hq⟩ := ih hmem hfit
    obtain ⟨t, q', hresult, -, hq'⟩ := hq.result lawful hmem
    refine ⟨q', ?_, hq'⟩
    rw [run, hrun]
    show q.result.stateAfter = _
    rw [hresult, Transition.stateAfter_done]
  | data p ih =>
    obtain ⟨q, hrun, hq⟩ := ih hmem hfit
    obtain ⟨t, q', hdata, -, -, hq'⟩ := hq.data lawful hmem
    refine ⟨q', ?_, hq'⟩
    rw [run, hrun]
    show Except.ok q.data.2 = _
    rw [hdata]
  | combine p other ih ih' =>
    simp only [payloadsFit, Bool.and_eq_true] at hfit
    obtain ⟨⟨hfit, hfit'⟩, hlen⟩ := hfit
    have hmem' : ∀ r ∈ other.records, r ∈ stream := fun r hr =>
      hmem r (List.mem_append_right _ hr)
    obtain ⟨q, hrun, hq⟩ := ih (fun r hr => hmem r (List.mem_append_left _ hr)) hfit
    obtain ⟨q', hrun', hq'⟩ := ih' hmem' hfit'
    rw [hrun', decide_eq_true_eq] at hlen
    obtain ⟨t, _, hdata, hread, ht, -⟩ := hq'.data lawful hmem'
    obtain ⟨bs, hbytes, hback⟩ := ofBytes_of_payloadLength hcap
      (fun r hr => hsuits r (hmem' r hr)) hread ht hlen
    obtain ⟨q'', hcombine, hq''⟩ := hq.combine lawful hback ht hmem
    refine ⟨q'', ?_, hq''⟩
    rw [run, hrun, hrun']
    show (q'.data.1.bind fun bs => (q.combine bs).stateAfter) = _
    rw [hdata, hbytes]
    show (q.combine bs).stateAfter = _
    rw [hcombine, Transition.stateAfter_done]

/-- The result in the end is made of the sample of all records. -/
theorem exists_answer (lawful : g.offering.Lawful (· ∈ stream)) (hpolicy : g.policy = .skip)
    (hcap : max capacity 1 < 2 ^ 64) (hsuits : ∀ r ∈ stream, g.Suits r)
    (hstart : Holds g capacity [] q₀) {p : Plan} (hsplit : p.records.Perm stream)
    (hfit : p.payloadsFit q₀ = true) :
    ∃ (q : GroupBy) (t : HashSample Group), p.answer q₀ = .ok (q.batchOf t) ∧ q.grouping = g ∧
      SampleOf g.offering capacity stream HashSample.noBound t := by
  have hmem : ∀ r ∈ p.records, r ∈ stream := fun r hr => hsplit.mem_iff.1 hr
  obtain ⟨q, hrun, hq⟩ := run_holds lawful hpolicy hcap hsuits hstart p hmem hfit
  obtain ⟨t, q', hresult, ht, -⟩ := hq.result lawful hmem
  refine ⟨q, t, ?_, hq.grouping_eq, ht.perm lawful hmem hsplit⟩
  rw [answer, hrun]
  show q.result.1 = _
  rw [hresult]
  rfl

end Plan

/-! ## The result -/

variable {keys : List (String × Expr)} {aggregates : List Aggregate} {settings : Settings}
  {lookup : Lookup} {q₀ q : GroupBy} {stream : List Record} {p : Plan}

/-- However a stream is split, taken, read and combined, the result in the end is the one of a
single GROUP BY that took the stream: the records of the smallest hashes of keys, as many as the
capacity allows, with what the aggregates answer over all records of the key. -/
theorem result_of_split (hnew : GroupBy.new keys aggregates settings = .ok q₀)
    (hq : q₀.withLookup lookup = q) (hpolicy : settings.nullPolicy = .skip)
    (hcap : settings.groupEntries < 2 ^ 64) (hsuits : ∀ r ∈ stream, q.grouping.Suits r)
    (hseparates : q.grouping.Separates stream)
    (hlast : ∀ r ∈ stream, q.grouping.hashOf r ≠ HashSample.noBound)
    (hsplit : p.records.Perm stream) (hfit : p.payloadsFit q = true) :
    ∃ b, p.answer q = .ok b ∧ (Plan.single stream).answer q = .ok b ∧
      q.grouping.Answers settings.groupEntries stream b := by
  subst hq
  have hstart := holds_new hnew lookup
  have hg := hstart.grouping_eq
  rw [hg] at hsuits hseparates hlast ⊢
  have lawful := Grouping.lawful_offering hseparates
  have hmax : max settings.groupEntries 1 < 2 ^ 64 := Nat.max_lt.2 ⟨hcap, by decide⟩
  obtain ⟨q, t, hanswer, hq, ht⟩ :=
    Plan.exists_answer lawful hpolicy hmax hsuits hstart hsplit hfit
  obtain ⟨q', t', hanswer', hq', ht'⟩ :=
    Plan.exists_answer (p := .single stream) lawful hpolicy hmax hsuits hstart
      (.of_eq (Plan.records_single stream)) (Plan.payloadsFit_single _ _)
  obtain rfl := ht.unique ht'
  have hbatch : q'.batchOf t = q.batchOf t := by
    rw [batchOf, batchOf, hq, hq']
  rw [hbatch] at hanswer'
  exact ⟨q.batchOf t, hanswer, hanswer', answers_batchOf hq ht hlast⟩

/-! ## Three sales -/

/-- The number of sales of a shop, with their total and mean price. -/
def sales : Grouping :=
  ⟨[("shop", .column "shop")], [⟨.count, none, some "n"⟩, ⟨.sum, some "price", some "total"⟩,
    ⟨.avg, some "price", some "mean"⟩], .skip, Record.lookup⟩

/-- A sale in a shop, whose price may be unknown. -/
def sale (shop : String) (price : Option Int64) : Record :=
  .ofList [("shop", .string shop), ("price", price.elim .null .long)]

/-- Three sales in two shops. -/
def threeSales : List Record :=
  [sale "north" (some 5), sale "south" none, sale "north" (some 3)]

/-- Two GROUP BYs take three sales; one of them is read in between. -/
def splitSales : Plan :=
  .combine (.result (.consume (.consume .start (sale "north" (some 3))) (sale "south" none)))
    (.data (.consume .start (sale "north" (some 5))))

theorem keyOf_sale (shop : String) (price : Option Int64) :
    sales.keyOf (sale shop price) = [.string shop] := by
  have hshop : (sale shop price).get? "shop" = some (.string shop) := by
    have hother : "price" ≠ "shop" := by decide
    exact (Record.get?_set_of_ne _ hother _).trans (Record.get?_set_self _ _ _)
  have heval : (Expr.column "shop").eval Record.lookup (sale shop price) = .ok (.string shop) := by
    rw [Expr.eval, Record.lookup, hshop]
  show [Expr.evalOrNull Record.lookup (sale shop price) (.column "shop")] = _
  rw [Expr.evalOrNull, heval]

theorem suits_sale (shop : String) (price : Option Int64) : sales.Suits (sale shop price) where
  key := by
    intro v hv
    rw [keyOf_sale, List.mem_singleton] at hv
    rw [hv]
    trivial
  fields := by
    intro a ha field hfield
    have hname : field = "price" := by
      simp only [sales, List.mem_cons, List.not_mem_nil, or_false] at ha
      rcases ha with rfl | rfl | rfl <;> cases hfield <;> rfl
    have hprice : Record.lookup field (sale shop price) = .ok (price.elim .null .long) := by
      have hget : (sale shop price).get? "price" = some (price.elim .null .long) :=
        Record.get?_set_self _ _ _
      rw [hname, Record.lookup, hget]
    cases price with
    | none => exact .inr (.inl hprice)
    | some n => exact .inr (.inr ⟨n, hprice⟩)

theorem separates_threeSales : sales.Separates threeSales := by
  have hdiffer : Value.hashTuple [.string "north"] ≠ Value.hashTuple [.string "south"] := by
    decide +kernel
  intro r hr r' hr' hhash
  simp only [threeSales, List.mem_cons, List.not_mem_nil, or_false] at hr hr'
  rcases hr with rfl | rfl | rfl <;> rcases hr' with rfl | rfl | rfl <;>
    simp only [Grouping.hashOf, keyOf_sale] at hhash ⊢
  · exact absurd hhash hdiffer
  · exact absurd hhash.symm hdiffer
  · exact absurd hhash.symm hdiffer
  · exact absurd hhash hdiffer

theorem result_of_splitSales :
    ∃ b, splitSales.answer ⟨sales, .new 1⟩ = .ok b ∧
      (Plan.single threeSales).answer ⟨sales, .new 1⟩ = .ok b ∧ sales.Answers 1 threeSales b := by
  have hnew : GroupBy.new sales.keys sales.aggregates { groupEntries := 1 }
      = .ok ⟨sales, .new 1⟩ := rfl
  have hlookup : (⟨sales, .new 1⟩ : GroupBy).withLookup Record.lookup = ⟨sales, .new 1⟩ := rfl
  have hsuits : ∀ r ∈ threeSales, sales.Suits r := by
    intro r hr
    simp only [threeSales, List.mem_cons, List.not_mem_nil, or_false] at hr
    rcases hr with rfl | rfl | rfl <;> exact suits_sale _ _
  have hlast : ∀ r ∈ threeSales, sales.hashOf r ≠ HashSample.noBound := by decide +kernel
  have hsplit : splitSales.records.Perm threeSales := List.reverse_perm threeSales
  have hfit : splitSales.payloadsFit ⟨sales, .new 1⟩ = true := by decide +kernel
  exact result_of_split hnew hlookup rfl (by decide) hsuits separates_threeSales hlast hsplit hfit

end GroupBy

end StreamQuery
