import StreamQuery.Proofs.Aggregation.Acceptance
import StreamQuery.Proofs.Sketch.Refusing
set_option autoImplicit false

/-!
# Partial results that a GROUP BY rejects

A GROUP BY rejects a partial result if it cannot read the bytes, or if one of its groups refuses a
group that came in them.  Bytes that cannot be read leave no trace, with a single exception, and
what a refusal leaves is said exactly: everything that was merged before the refused value.
-/

namespace StreamQuery.GroupBy

variable {q q' : GroupBy}

/-! ## States -/

theorem tidy_apply (h : q.Regular) (hk : Coherent q.sketch.sketch) (tidy : Tidy q.sketch.sketch)
    (s : GroupByStep) : Tidy (s.apply q).sketch.sketch := by
  have hempty : q.sketch.sketch.parts.blank.entries = .empty := by
    rw [h.blank_eq]
    rfl
  have hread : Tidy (Sketch.result q.sketch.sketch).2 := by
    rw [Sketch.snd_result]
    exact tidy.merge hempty
  cases s with
  | consume r =>
    show Tidy (q.consume r).2.sketch.sketch
    unfold consume
    split
    · exact tidy.add _ _
    · exact tidy
  | combine bs => exact tidy.unionBytes bs
  | data => exact hread
  | result =>
    simp only [GroupByStep.apply, snd_result hk]
    exact hread
  | reset =>
    exact .reset (h.updates.toFormed.clear_eq.trans h.blank_eq.symm)
      (h.unions.clear_eq.trans h.blank_eq.symm)

theorem Reachable.tidy (h : q.Reachable) : Tidy q.sketch.sketch := by
  induction h with
  | new lookup hnew =>
    rw [eq_of_new hnew]
    exact tidy_new _
  | step s hreach ih => exact tidy_apply hreach.regular hreach.coherent ih s

theorem Reachable.formed (h : q.Reachable) : q.sketch.sketch.Formed q.sketch.capacity :=
  h.regular.mono (fun _ hs => ⟨hs.toFormed, hs.fits⟩) fun _ hs => hs

/-! ## Reading alike -/

/-- Whatever is done to both, two GROUP BYs have the same result and the same bytes. -/
def ReadsAlike (q q' : GroupBy) : Prop :=
  ∀ steps : List GroupByStep,
    (steps.foldl GroupByStep.apply q').result.1 = (steps.foldl GroupByStep.apply q).result.1 ∧
      (steps.foldl GroupByStep.apply q').data.1 = (steps.foldl GroupByStep.apply q).data.1

/-- The second GROUP BY is the first one with a sketch that follows its own. -/
structure Follows (q q' : GroupBy) : Prop where
  reachable : q.Reachable
  reachable' : q'.Reachable
  follows : ∃ k, q' = q.withSketch k ∧ q.sketch.sketch.Follows k

theorem Follows.apply (h : Follows q q') (s : GroupByStep) : Follows (s.apply q) (s.apply q') := by
  refine ⟨h.reachable.step s, h.reachable'.step s, ?_⟩
  have hk' := h.reachable'.coherent
  obtain ⟨k, rfl, hfollows⟩ := h.follows
  have hread := hfollows.result h.reachable.formed h.reachable.tidy
  cases s with
  | consume r =>
    cases hgroup : q.grouping.groupOf r with
    | error e =>
      simp only [GroupByStep.apply, consume, withSketch, hgroup]
      exact ⟨k, rfl, hfollows⟩
    | ok group =>
      simp only [GroupByStep.apply, consume, withSketch, hgroup]
      exact ⟨_, rfl, (hfollows.add (Value.hashTuple group.key) group).2⟩
  | combine bs => exact ⟨_, rfl, (hfollows.unionBytes bs).2⟩
  | data => exact ⟨_, rfl, hread.2⟩
  | result =>
    simp only [GroupByStep.apply, snd_result h.reachable.coherent, snd_result hk']
    exact ⟨_, rfl, hread.2⟩
  | reset => exact ⟨_, rfl, hfollows.reset⟩

theorem Follows.run (h : Follows q q') (steps : List GroupByStep) :
    Follows (steps.foldl GroupByStep.apply q) (steps.foldl GroupByStep.apply q') := by
  induction steps generalizing q q' with
  | nil => exact h
  | cons step rest ih => exact ih (h.apply step)

theorem Follows.result_eq (h : Follows q q') : q'.result.1 = q.result.1 := by
  have hk := h.reachable.coherent
  have hk' := h.reachable'.coherent
  obtain ⟨k, rfl, hfollows⟩ := h.follows
  have hread := (hfollows.result h.reachable.formed h.reachable.tidy).1
  rw [GroupBy.result_eq hk, GroupBy.result_eq hk']
  show (Sketch.result k).1.map q.batchOf = (Sketch.result q.sketch.sketch).1.map q.batchOf
  rw [hread]

theorem Follows.data_eq (h : Follows q q') : q'.data.1 = q.data.1 := by
  obtain ⟨k, rfl, hfollows⟩ := h.follows
  have hread := (hfollows.result h.reachable.formed h.reachable.tidy).1
  show (Sketch.result k).1.bind HashSample.toBytes
    = (Sketch.result q.sketch.sketch).1.bind HashSample.toBytes
  rw [hread]

theorem Follows.readsAlike (h : Follows q q') : ReadsAlike q q' :=
  fun steps => ⟨(h.run steps).result_eq, (h.run steps).data_eq⟩

/-! ## Bytes that cannot be read -/

theorem combine_of_unreadable {bs : Bytes} {e : QueryError}
    (h : HashSample.ofBytes (α := Group) bs = .error e) :
    q.combine bs = .fail e (q.withSketch q.sketch.sketch.alerted) := by
  show (((Sketch.unionBytes q.sketch.sketch bs).within _).map _).within _ = _
  rw [unionBytes_of_unreadable h]
  rfl

/-- The number of result records is that of the groups. -/
theorem length_records_batchOf (q : GroupBy) (t : HashSample Group) :
    (q.batchOf t).records.length = t.retained := by
  show (t.values.map q.grouping.resultRecord).length = t.entries.entries.length
  simp only [HashSample.values, Keyed.values, List.length_map]

/-- A merge that has nothing to merge shows in the result if it trims it. -/
theorem not_readsAlike_of_overfull (h : q.Reachable) (hover : q.sketch.sketch.Overfull) :
    ¬ReadsAlike q (q.withSketch q.sketch.sketch.alerted) := by
  obtain ⟨hstale, r, hres, hlarge⟩ := hover
  intro halike
  have hread := result_of_not_stale hstale hres
  have hsettled := result_of_not_stale (k := { q.sketch.sketch with
      parts := { q.sketch.sketch.parts with result := some r.trim },
      mergeCount := q.sketch.sketch.mergeCount + 1 }) hstale rfl
  have halerted := result_alerted_of_settled h.formed h.tidy hstale hres
  have hbefore : q.result.1 = .ok (q.batchOf r) := by
    rw [result_of_reads hread hread]
    rfl
  have hafter : (q.withSketch q.sketch.sketch.alerted).result.1 = .ok (q.batchOf r.trim) := by
    rw [result_of_reads (q := q.withSketch q.sketch.sketch.alerted) halerted hsettled]
    rfl
  have hsame := (halike []).1
  simp only [List.foldl_nil, hbefore, hafter] at hsame
  have hlength : r.trim.retained = r.retained := by
    rw [← length_records_batchOf q, ← length_records_batchOf q, Except.ok.inj hsame]
  have hfits := HashSample.fits_trim r
  rw [HashSample.Fits, hlength, capacity_trim] at hfits
  exact hlarge hfits

/-- Bytes that cannot be read change no later read, unless the last result is settled and holds more
groups than there is room for. -/
theorem readsAlike_of_unreadable_iff (h : q.Reachable) {bs : Bytes} {e : QueryError}
    (hbs : HashSample.ofBytes (α := Group) bs = .error e) :
    ReadsAlike q (q.combine bs).2 ↔ ¬q.sketch.sketch.Overfull := by
  have hcombine := combine_of_unreadable (q := q) hbs
  have hreach : (q.combine bs).2.Reachable := h.step (.combine bs)
  rw [hcombine] at hreach ⊢
  constructor
  · intro halike hover
    exact not_readsAlike_of_overfull h hover halike
  · intro hroom
    have hfollows : Follows q (q.withSketch q.sketch.sketch.alerted) :=
      ⟨h, hreach, _, rfl, _, .inr ⟨rfl, hroom⟩⟩
    exact hfollows.readsAlike

/-! ## Groups that are refused -/

/-- The same GROUP BY with other unions. -/
def withUnions (q : GroupBy) (unions : HashSample Group) : GroupBy :=
  q.withSketch { q.sketch.sketch with parts := { q.sketch.sketch.parts with unions } }

/-- The sample that the partial results of others are merged into. -/
abbrev unions (q : GroupBy) : HashSample Group := q.sketch.sketch.parts.unions

/-- What a rejected partial result leaves behind.  If its bytes cannot be read, that is nothing that
a later read could tell, unless the last result is settled and overfull.  If one of its groups is
refused, it is what was merged before that group and the running values that were reduced before
the one that could not be: the state is the same only if the unions came out as they were. -/
theorem rejected_combine_leaves (h : q.Reachable) {bs : Bytes} {e : QueryError}
    (hrejected : (q.combine bs).1 = .error e) :
    (HashSample.ofBytes (α := Group) bs = .error e ∧
        (ReadsAlike q (q.combine bs).2 ↔ ¬q.sketch.sketch.Overfull)) ∨
      ∃ t used u, HashSample.ofBytes bs = .ok (t, used) ∧ q.unions.StopsAt t e u ∧
        (q.combine bs).2 = q.withUnions u ∧ ((q.combine bs).2 = q ↔ u = q.unions) := by
  cases hbs : HashSample.ofBytes (α := Group) bs with
  | error e' =>
    have hcombine := combine_of_unreadable (q := q) hbs
    rw [hcombine] at hrejected
    cases hrejected
    exact .inl ⟨rfl, readsAlike_of_unreadable_iff h hbs⟩
  | ok read =>
    obtain ⟨t, used⟩ := read
    rcases hmerge : q.unions.merge t with ⟨⟨e'⟩ | ⟨⟨⟩⟩, u⟩
    · have hunion := unionBytes_of_refused h.coherent h.tidy hbs hmerge
      have hcombine : q.combine bs = .fail e' (q.withUnions u) := by
        show (((Sketch.unionBytes q.sketch.sketch bs).within _).map _).within _ = _
        rw [hunion]
        rfl
      rw [hcombine] at hrejected ⊢
      cases hrejected
      refine .inr ⟨t, used, u, rfl, HashSample.stopsAt_of_merge hmerge, rfl, ?_, ?_⟩
      · intro hsame
        exact congrArg unions hsame
      · rintro rfl
        rfl
    · have hcombine : (q.combine bs).1 = .ok () := by
        show (((Sketch.unionBytes q.sketch.sketch bs).within _).map _).1 = _
        simp only [Sketch.unionBytes, Lazy.union, HashSample.unionBytes, hbs, hmerge]
        rfl
      rw [hcombine] at hrejected
      cases hrejected

/-! ## A record that is counted twice -/

/-- The number of records and the total of a field. -/
def countAndTotal : GroupBy :=
  ⟨⟨[], [⟨.count, none, some "n"⟩, ⟨.sum, some "v", some "total"⟩], .skip, Record.lookup⟩, .new 16⟩

/-- A partial result of one record with a given total, as it is sent. -/
def oneRecordBytes (total : Value) : Bytes :=
  let sample : HashSample Group := ⟨16, HashSample.noBound, .ofList [(Value.hashTuple [],
    ⟨[], ⟨[⟨⟨.count, none, some "n"⟩, .long 1⟩, ⟨⟨.sum, some "v", some "total"⟩, total⟩]⟩⟩)]⟩
  Bytes.ofNat 4 sample.toJson.bytes.length ++ sample.toJson.bytes

/-- The number of records and their total after a partial result of one record. -/
def afterOneRecord : GroupBy :=
  (GroupByStep.combine (oneRecordBytes (.long 5))).apply countAndTotal

theorem reachable_afterOneRecord : afterOneRecord.Reachable := by
  have hnew : GroupBy.new [] [⟨.count, none, some "n"⟩, ⟨.sum, some "v", some "total"⟩]
      { groupEntries := 16 } = .ok countAndTotal := rfl
  have hstart : Reachable countAndTotal := .new Record.lookup hnew
  exact hstart.step (.combine _)

theorem combine_text_rejected : (afterOneRecord.combine (oneRecordBytes (.string "x"))).1
    = .error (.unsupported "+" "STRING") := by
  decide +kernel

theorem rejected_combine_leaves_text :
    (afterOneRecord.Reachable ∧ (afterOneRecord.combine (oneRecordBytes (.string "x"))).1
        = .error (.unsupported "+" "STRING")) ∧
      ((HashSample.ofBytes (α := Group) (oneRecordBytes (.string "x"))
          = .error (.unsupported "+" "STRING") ∧
        (ReadsAlike afterOneRecord (afterOneRecord.combine (oneRecordBytes (.string "x"))).2 ↔
          ¬afterOneRecord.sketch.sketch.Overfull)) ∨
      ∃ t used u, HashSample.ofBytes (oneRecordBytes (.string "x")) = .ok (t, used) ∧
        afterOneRecord.unions.StopsAt t (.unsupported "+" "STRING") u ∧
        (afterOneRecord.combine (oneRecordBytes (.string "x"))).2 = afterOneRecord.withUnions u ∧
        ((afterOneRecord.combine (oneRecordBytes (.string "x"))).2 = afterOneRecord ↔
          u = afterOneRecord.unions)) :=
  ⟨⟨reachable_afterOneRecord, combine_text_rejected⟩,
    rejected_combine_leaves reachable_afterOneRecord combine_text_rejected⟩

/-- A partial result whose total is a text is rejected, but its count is there: the one record that
was taken counts for two. -/
theorem rejected_text_is_counted :
    afterOneRecord.Reachable ∧
      (afterOneRecord.combine (oneRecordBytes (.string "x"))).1
        = .error (.unsupported "+" "STRING") ∧
      ∃ b b', afterOneRecord.result.1 = .ok b ∧
        (afterOneRecord.combine (oneRecordBytes (.string "x"))).2.result.1 = .ok b' ∧
        b.records.map Record.text = ["\x7bn: 1, total: 5\x7d"] ∧
        b'.records.map Record.text = ["\x7bn: 2, total: 5\x7d"] := by
  refine ⟨reachable_afterOneRecord, combine_text_rejected, ?_⟩
  have hbefore : afterOneRecord.result.1.map (fun b => b.records.map Record.text)
      = .ok ["\x7bn: 1, total: 5\x7d"] := by decide +kernel
  have hafter : (afterOneRecord.combine (oneRecordBytes (.string "x"))).2.result.1.map
      (fun b => b.records.map Record.text) = .ok ["\x7bn: 2, total: 5\x7d"] := by decide +kernel
  obtain ⟨b, hb, htexts⟩ := Outcome.exists_of_map_eq_ok hbefore
  obtain ⟨b', hb', htexts'⟩ := Outcome.exists_of_map_eq_ok hafter
  exact ⟨b, b', hb, hb', htexts, htexts'⟩

end StreamQuery.GroupBy
