import StreamQuery.Aggregation.GroupBy
import StreamQuery.Proofs.Sketch.Rereading
set_option autoImplicit false

/-!
# Reading a GROUP BY twice

The result of a GROUP BY can be read again and again: once a read has succeeded, the next one
gives the same batch.  A read that fails is another matter.  The groups that another GROUP BY
sent may refuse the groups that were collected here, and these are lost with the failure; the
next read then succeeds without them, unless it fails for the same reason once more.
-/

namespace StreamQuery

/-! ## States -/

/-- What can be done to a GROUP BY. -/
inductive GroupByStep where
  | consume (r : Record)
  | combine (bs : Bytes)
  | data
  | result
  | reset

/-- The GROUP BY that a step leaves behind, whether it fails or not. -/
def GroupByStep.apply (q : GroupBy) : GroupByStep → GroupBy
  | consume r => (q.consume r).2
  | combine bs => (q.combine bs).2
  | data => q.data.2
  | result => q.result.2
  | reset => q.reset

namespace GroupBy

/-- The states that a GROUP BY can come to. -/
inductive Reachable : GroupBy → Prop where
  | new {keys : List (String × Expr)} {aggregates : List Aggregate} {settings : Settings}
    {q : GroupBy} (lookup : Lookup) :
    GroupBy.new keys aggregates settings = .ok q → Reachable (q.withLookup lookup)
  | step {q : GroupBy} (s : GroupByStep) : Reachable q → Reachable (s.apply q)

variable {q : GroupBy}

/-- The batch that is made of a sample of groups. -/
def batchOf (q : GroupBy) (t : HashSample Group) : Batch :=
  t.accuracy.describe (.ofRecords (t.values.map q.grouping.resultRecord))

/-- The same GROUP BY with another sketch. -/
def withSketch (q : GroupBy) (sketch : Sketch Group) : GroupBy :=
  { q with sketch := { q.sketch with sketch } }

/-- A record that makes a group is offered to the sketch under the hash of its key. -/
theorem consume_of_group {r : Record} {group : Group} (h : q.grouping.groupOf r = .ok group) :
    q.consume r
      = ((Sketch.add q.sketch.sketch (Value.hashTuple group.key) group).map fun _ => ()).within
          q.withSketch := by
  rw [consume, h]
  rfl

/-- A record that makes none is refused. -/
theorem consume_of_error {r : Record} {e : QueryError} (h : q.grouping.groupOf r = .error e) :
    q.consume r = .fail e q := by
  rw [consume, h]

/-- A result reads the sketch twice, for the accuracy and for the groups. -/
theorem result_of_reads {t : HashSample Group} {k k' : Sketch Group}
    (hread : Sketch.result q.sketch.sketch = .done t k) (hagain : Sketch.result k = .done t k') :
    q.result = .done (q.batchOf t) (q.withSketch k') := by
  have haccuracy : q.sketch.accuracy = .done t.accuracy { q.sketch with sketch := k } := by
    simp only [GroupSketch.accuracy, GroupSketch.lift, Sketch.accuracy, hread]
    rfl
  have hgroups : (⟨q.sketch.capacity, k⟩ : GroupSketch).groups
      = .done t.values ⟨q.sketch.capacity, k'⟩ := by
    simp only [GroupSketch.groups, GroupSketch.lift, hagain]
    rfl
  simp only [result, lift, haccuracy, Transition.andThen_done, hgroups]
  rfl

/-- A result makes a batch of what the sketch reads. -/
theorem result_eq (h : Coherent q.sketch.sketch) :
    q.result = ((Sketch.result q.sketch.sketch).map q.batchOf).within q.withSketch := by
  rcases hread : Sketch.result q.sketch.sketch with ⟨⟨e⟩ | ⟨t⟩, k⟩
  · have haccuracy : q.sketch.accuracy = .fail e { q.sketch with sketch := k } := by
      simp only [GroupSketch.accuracy, GroupSketch.lift, Sketch.accuracy, hread]
      rfl
    simp only [result, lift, haccuracy, Transition.andThen_fail]
    rfl
  · have hagain : Sketch.result k = .done t k := by
      rcases h.result_cases with ⟨t', k', hread', -, hagain⟩ |
        ⟨-, r, e, u, -, -, -, hread'⟩ | ⟨-, e, u, -, hread', -⟩
      · cases hread.symm.trans hread'
        exact hagain
      · cases hread.symm.trans hread'
      · cases hread.symm.trans hread'
    exact result_of_reads hread hagain

/-- Every step keeps a sketch coherent. -/
theorem coherent_apply (h : Coherent q.sketch.sketch) (s : GroupByStep) :
    Coherent (s.apply q).sketch.sketch := by
  cases s with
  | consume r =>
    show Coherent (q.consume r).2.sketch.sketch
    unfold consume
    split
    · exact h.add _ _
    · exact h
  | combine bs => exact h.unionBytes bs
  | data => exact h.result
  | result =>
    show Coherent q.result.2.sketch.sketch
    rw [result_eq h]
    exact h.result
  | reset => exact h.reset

theorem Reachable.coherent (h : q.Reachable) : Coherent q.sketch.sketch := by
  induction h with
  | new lookup hnew =>
    rw [eq_of_new hnew]
    exact coherent_new _
  | step s _ ih => exact coherent_apply ih s

/-! ## Two reads -/

/-- A second result right after a first one has its outcome exactly if the first one succeeded, or
if what was sent by others refuses first the groups of the last result and then those collected
since, with the same error. -/
theorem reread_iff (h : q.Reachable) :
    q.result.2.result.1 = q.result.1 ↔
      (∃ b, q.result.1 = .ok b) ∨ q.sketch.sketch.RefusesTwice := by
  have hk := h.coherent
  have hk' : Coherent q.result.2.sketch.sketch := coherent_apply hk .result
  have hreread := hk.reads_alike_iff
  have hfirst : q.result.1 = (Sketch.result q.sketch.sketch).1.map q.batchOf := by
    rw [result_eq hk]
    rfl
  have hsecond : q.result.2.result.1
      = (Sketch.result (Sketch.result q.sketch.sketch).2).1.map q.batchOf := by
    rw [result_eq hk', result_eq hk]
    rfl
  rw [hfirst, hsecond]
  cases hread : (Sketch.result q.sketch.sketch).1 with
  | ok t =>
    rw [hread] at hreread
    have hagain := hreread.2 (.inl ⟨t, rfl⟩)
    rw [hagain]
    exact ⟨fun _ => .inl ⟨q.batchOf t, rfl⟩, fun _ => rfl⟩
  | error e =>
    rw [hread] at hreread
    constructor
    · intro hsame
      cases hagain : (Sketch.result (Sketch.result q.sketch.sketch).2).1 with
      | ok t =>
        rw [hagain] at hsame
        cases hsame
      | error e' =>
        rw [hagain] at hsame
        cases hsame
        rcases hreread.1 hagain with ⟨t, ht⟩ | hrefuses
        · cases ht
        · exact .inr hrefuses
    · rintro (⟨b, hb⟩ | hrefuses)
      · cases hb
      · rw [hreread.2 (.inr hrefuses)]

/-! ## A count that is lost -/

/-- The number of all records. -/
def countAll : GroupBy :=
  ⟨⟨[], [⟨.count, none, some "n"⟩], .skip, Record.lookup⟩, .new 16⟩

/-- A partial result in which the number of all records is a text. -/
def textCount : HashSample Group :=
  ⟨16, HashSample.noBound, .ofList [(Value.hashTuple [],
    ⟨[], ⟨[⟨⟨.count, none, some "n"⟩, .string "x"⟩]⟩⟩)]⟩

/-- The partial result as it is sent. -/
def textCountBytes : Bytes :=
  Bytes.ofNat 4 textCount.toJson.bytes.length ++ textCount.toJson.bytes

/-- The number of all records after one record and the partial result. -/
def spoiltCount : GroupBy :=
  (GroupByStep.combine textCountBytes).apply ((GroupByStep.consume .empty).apply countAll)

theorem reachable_spoiltCount : spoiltCount.Reachable := by
  have hnew : GroupBy.new [] [⟨.count, none, some "n"⟩] { groupEntries := 16 } = .ok countAll := rfl
  have hstart : Reachable countAll := .new Record.lookup hnew
  exact (hstart.step (.consume .empty)).step (.combine textCountBytes)

theorem reread_iff_spoiltCount :
    spoiltCount.Reachable ∧ (spoiltCount.result.2.result.1 = spoiltCount.result.1 ↔
      (∃ b, spoiltCount.result.1 = .ok b) ∨ spoiltCount.sketch.sketch.RefusesTwice) :=
  ⟨reachable_spoiltCount, reread_iff reachable_spoiltCount⟩

/-- The first read fails, since a number cannot be added to a text, and the second one succeeds with
the text: the record that was taken is missing. -/
theorem spoiltCount_reread :
    spoiltCount.Reachable ∧ spoiltCount.result.1 = .error (.unsupported "+" "STRING") ∧
      ∃ b, spoiltCount.result.2.result.1 = .ok b ∧
        b.records.map Record.text = ["\x7bn: x\x7d"] := by
  refine ⟨reachable_spoiltCount, ?_, ?_⟩
  · have hfirst : (match spoiltCount.result.1 with
      | .error e => decide (e = .unsupported "+" "STRING")
      | .ok _ => false) = true := by decide +kernel
    split at hfirst
    · rename_i e he
      rw [he, of_decide_eq_true hfirst]
    · cases hfirst
  · have hsecond : (match spoiltCount.result.2.result.1 with
      | .error _ => false
      | .ok b => decide (b.records.map Record.text = ["\x7bn: x\x7d"])) = true := by decide +kernel
    split at hsecond
    · cases hsecond
    · rename_i b hb
      exact ⟨b, hb, of_decide_eq_true hsecond⟩

end GroupBy

end StreamQuery
