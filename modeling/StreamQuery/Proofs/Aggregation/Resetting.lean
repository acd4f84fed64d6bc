import StreamQuery.Proofs.Aggregation.Rereading
import StreamQuery.Proofs.Sketch.Refusing
import StreamQuery.Query
set_option autoImplicit false

/-!
# Resetting aggregations

A reset empties the working samples of a sketch, drops its result and takes the flags back.  As the
samples have the capacity that the sketch was made with whatever was done to it, it is then the
sketch that it was at first, apart from the number of merges; and no operation looks at that number.
So an aggregation answers after a reset as a new one does, and so does a query.
-/

namespace StreamQuery

/-! ## Operations that respect a relation -/

section Respects

variable {σ β γ : Type} {R : σ → σ → Prop}

/-- On related states an operation gives the same answer, and it leaves related states. -/
def Transition.Respects (R : σ → σ → Prop) (f : σ → Transition σ β) : Prop :=
  ∀ s s', R s s' → (f s').1 = (f s).1 ∧ R (f s).2 (f s').2

namespace Transition.Respects

variable {f : σ → Transition σ β}

theorem map (hf : Respects R f) (g : β → γ) : Respects R fun s => (f s).map g := by
  intro s s' h
  obtain ⟨hanswer, hstate⟩ := hf s s' h
  exact ⟨congrArg (Except.map g) hanswer, hstate⟩

theorem mapOutcome (hf : Respects R f) (g : β → Outcome γ) :
    Respects R fun s => (f s).mapOutcome g := by
  intro s s' h
  obtain ⟨hanswer, hstate⟩ := hf s s' h
  exact ⟨congrArg (Except.bind · g) hanswer, hstate⟩

theorem andThen {next : β → σ → Transition σ γ} (hf : Respects R f)
    (hnext : ∀ b, Respects R (next b)) : Respects R fun s => (f s).andThen next := by
  intro s s' h
  obtain ⟨hanswer, hstate⟩ := hf s s' h
  show ((f s').andThen next).1 = ((f s).andThen next).1 ∧
    R ((f s).andThen next).2 ((f s').andThen next).2
  rcases hs : f s with ⟨⟨e⟩ | ⟨b⟩, t⟩
  · rcases hs' : f s' with ⟨o, t'⟩
    rw [hs, hs'] at hanswer hstate
    cases hanswer
    exact ⟨rfl, hstate⟩
  · rcases hs' : f s' with ⟨o, t'⟩
    rw [hs, hs'] at hanswer hstate
    cases hanswer
    exact hnext b t t' hstate

end Transition.Respects

end Respects

open Transition (Respects)

/-! ## Sketches -/

variable {α : Type} [Combine α] {capacity : Nat}

/-- A sample has the capacity that its sketch was made with. -/
def HashSample.Sized (capacity : Nat) (s : HashSample α) : Prop := s.capacity = max capacity 1

theorem lasting_sized (capacity : Nat) :
    Lasting (HashSample.new capacity : HashSample α) (HashSample.Sized capacity)
      (HashSample.Sized capacity) where
  blank := rfl
  clear h := h
  clear_unions h := h
  publish h := h
  merge h _ := (HashSample.capacity_merge _ _).trans h

/-- Two sketches that differ in the number of merges alone, of samples with one capacity. -/
structure Sketch.Alike (capacity : Nat) (k k' : Sketch α) : Prop where
  recounted : ∃ n, k' = { k with mergeCount := n }
  sized : k.parts.Have (.new capacity) (HashSample.Sized capacity) (HashSample.Sized capacity)

namespace Sketch.Alike

theorem new (capacity : Nat) : Alike capacity (Sketch.new capacity : Sketch α) (.new capacity) :=
  ⟨⟨0, rfl⟩, (lasting_sized capacity).new⟩

theorem reset {k k' : Sketch α} (h : Alike capacity k k') :
    Sketch.Alike capacity (Lazy.reset k) (Lazy.reset k') := by
  obtain ⟨⟨n, rfl⟩, hsized⟩ := h
  exact ⟨⟨n, rfl⟩, (lasting_sized capacity).reset hsized⟩

/-- A reset makes a sketch what it was at first. -/
theorem new_reset {k k' : Sketch α} (h : Alike capacity k k') :
    Sketch.Alike capacity (Sketch.new capacity) (Lazy.reset k') := by
  obtain ⟨⟨n, rfl⟩, hsized⟩ := h
  refine ⟨⟨n, ?_⟩, (lasting_sized capacity).new⟩
  obtain ⟨⟨updates, unions, result, blank⟩, updated, unioned, stale, count⟩ := k
  have hclear {s : HashSample α} (hs : s.Sized capacity) : s.clear = .new capacity := by
    simp only [HashSample.clear, HashSample.new, show s.capacity = max capacity 1 from hs]
  have hblank : blank = .new capacity := hsized.blank_eq
  simp only [Lazy.reset, Merging.reset, SampleParts.reset, hclear hsized.updates,
    hclear hsized.unions, hblank]
  rfl

theorem respects_add (hash : UInt64) (a : α) :
    Respects (Alike capacity) fun k => Sketch.add k hash a := by
  rintro k k' ⟨⟨n, rfl⟩, hsized⟩
  refine ⟨rfl, ⟨n, rfl⟩, { hsized with updates := ?_ }⟩
  exact (HashSample.capacity_add _ _ _).trans hsized.updates

theorem respects_unionBytes [JsonForm α] (bs : Bytes) :
    Respects (Alike (α := α) capacity) fun k => Sketch.unionBytes k bs := by
  rintro k k' ⟨⟨n, rfl⟩, hsized⟩
  exact ⟨rfl, ⟨n, rfl⟩, hsized.unionBytes
    (fun t hs => (HashSample.capacity_merge _ t).trans hs) bs⟩

theorem respects_result : Respects (Alike (α := α) capacity) Sketch.result := by
  rintro k k' ⟨⟨n, rfl⟩, hsized⟩
  obtain ⟨m, hresult⟩ := Sketch.result_recount k n
  rw [hresult]
  exact ⟨rfl, ⟨m, rfl⟩, (lasting_sized capacity).result hsized⟩

theorem respects_accuracy : Respects (Alike (α := α) capacity) Sketch.accuracy :=
  respects_result.map _

theorem respects_bytes [JsonForm α] : Respects (Alike (α := α) capacity) Sketch.bytes :=
  respects_result.mapOutcome _

theorem respects_estimate : Respects (Alike capacity) DistinctSketch.estimate :=
  respects_result.map _

end Sketch.Alike

/-- Two sketches of groups that differ in the number of merges alone. -/
structure GroupSketch.Alike (capacity : Nat) (s s' : GroupSketch) : Prop where
  capacity_eq : s.capacity = capacity
  capacity_eq' : s'.capacity = capacity
  sketch : s.sketch.Alike capacity s'.sketch

/-- What is done to the sketch inside a sketch of groups. -/
theorem GroupSketch.Alike.respects_lift {β : Type} {f : Sketch Group → Transition (Sketch Group) β}
    (hf : Respects (Sketch.Alike capacity) f) :
    Respects (Alike capacity) fun s => s.lift f := by
  rintro s s' ⟨hcapacity, hcapacity', hs⟩
  obtain ⟨hanswer, hstate⟩ := hf _ _ hs
  exact ⟨hanswer, hcapacity, hcapacity', hstate⟩

/-! ## Aggregations -/

/-- Two states of a GROUP BY that differ in the number of merges alone. -/
structure GroupBy.Alike (g : Grouping) (capacity : Nat) (q q' : GroupBy) : Prop where
  grouping_eq : q.grouping = g
  grouping_eq' : q'.grouping = g
  sketch : q.sketch.Alike capacity q'.sketch

namespace GroupBy.Alike

variable {g : Grouping}

/-- What is done to the sketch of groups inside a GROUP BY. -/
theorem respects_lift {β : Type} {f : Grouping → GroupSketch → Transition GroupSketch β}
    (hf : Respects (GroupSketch.Alike capacity) (f g)) :
    Respects (Alike g capacity) fun q => q.lift (f q.grouping) := by
  rintro ⟨g, s⟩ ⟨g', s'⟩ ⟨rfl, hg, hs⟩
  cases hg
  obtain ⟨hanswer, hstate⟩ := hf s s' hs
  exact ⟨hanswer, rfl, rfl, hstate⟩

theorem respects_consume (r : Record) : Respects (Alike g capacity) fun q => q.consume r := by
  rintro ⟨g, s⟩ ⟨g', s'⟩ ⟨rfl, hg, hs⟩
  cases hg
  simp only [GroupBy.consume]
  cases g.groupOf r with
  | error e => exact ⟨rfl, rfl, rfl, hs⟩
  | ok group =>
    have hadd : Respects (GroupSketch.Alike capacity) fun s => s.add group :=
      GroupSketch.Alike.respects_lift ((Sketch.Alike.respects_add _ _).map _)
    obtain ⟨hanswer, hstate⟩ := hadd s s' hs
    exact ⟨hanswer, rfl, rfl, hstate⟩

theorem respects_combine (bs : Bytes) : Respects (Alike g capacity) fun q => q.combine bs :=
  respects_lift (f := fun _ s => (s.unionBytes bs).map fun _ => ())
    ((GroupSketch.Alike.respects_lift (Sketch.Alike.respects_unionBytes bs)).map _)

theorem respects_data : Respects (Alike g capacity) GroupBy.data :=
  respects_lift (f := fun _ => GroupSketch.bytes)
    (GroupSketch.Alike.respects_lift Sketch.Alike.respects_bytes)

theorem respects_result : Respects (Alike g capacity) GroupBy.result :=
  respects_lift (f := fun g s => s.accuracy.andThen fun accuracy s =>
    s.groups.map fun groups => accuracy.describe (.ofRecords (groups.map g.resultRecord)))
    ((GroupSketch.Alike.respects_lift Sketch.Alike.respects_accuracy).andThen fun _ =>
      (GroupSketch.Alike.respects_lift (Sketch.Alike.respects_result.map _)).map _)

end GroupBy.Alike

/-- Two states of a COUNT DISTINCT that differ in the number of merges alone. -/
structure CountDistinct.Alike (fields : List Expr) (name : String) (capacity : Nat)
    (q q' : CountDistinct) : Prop where
  fields_eq : q.fields = fields
  fields_eq' : q'.fields = fields
  name_eq : q.name = name
  name_eq' : q'.name = name
  sketch : q.sketch.Alike capacity q'.sketch

namespace CountDistinct.Alike

variable {fields : List Expr} {name : String}

/-- What is done to the sketch inside a COUNT DISTINCT. -/
theorem respects_lift {β : Type} {f : String → DistinctSketch → Transition DistinctSketch β}
    (hf : Respects (Sketch.Alike capacity) (f name)) :
    Respects (Alike fields name capacity) fun q => q.lift (f q.name) := by
  rintro ⟨fields, name, s⟩ ⟨fields', name', s'⟩ ⟨rfl, hfields, rfl, hname, hs⟩
  cases hfields
  cases hname
  obtain ⟨hanswer, hstate⟩ := hf s s' hs
  exact ⟨hanswer, rfl, rfl, rfl, rfl, hstate⟩

theorem respects_consume (r : Record) :
    Respects (Alike fields name capacity) fun q => q.consume r := by
  rintro ⟨fields, name, s⟩ ⟨fields', name', s'⟩ ⟨rfl, hfields, rfl, hname, hs⟩
  cases hfields
  cases hname
  simp only [CountDistinct.consume, CountDistinct.tupleOf]
  have hadd (hash : UInt64) : Respects (Sketch.Alike capacity) fun k : DistinctSketch =>
      (Sketch.add k hash ()).map fun _ => () := (Sketch.Alike.respects_add _ _).map _
  obtain ⟨hanswer, hstate⟩ := hadd _ s s' hs
  exact ⟨hanswer, rfl, rfl, rfl, rfl, hstate⟩

theorem respects_combine (bs : Bytes) :
    Respects (Alike fields name capacity) fun q => q.combine bs :=
  respects_lift (f := fun _ s => (Sketch.unionBytes s bs).map fun _ => ())
    ((Sketch.Alike.respects_unionBytes bs).map _)

theorem respects_data : Respects (Alike fields name capacity) CountDistinct.data :=
  respects_lift (f := fun _ => Sketch.bytes) Sketch.Alike.respects_bytes

theorem respects_result : Respects (Alike fields name capacity) CountDistinct.result :=
  respects_lift (f := fun name s => s.estimate.andThen fun estimate s =>
    (Sketch.accuracy s).map fun accuracy =>
      accuracy.describe (.ofRecords [Record.empty.set name (.ofEstimate estimate)]))
    (Sketch.Alike.respects_estimate.andThen fun _ => Sketch.Alike.respects_accuracy.map _)

end CountDistinct.Alike

namespace Aggregation

/-- An aggregation before its first record; a GROUP BY may resolve fields in any way. -/
inductive IsNew : Aggregation → Prop where
  | groupBy {keys : List (String × Expr)} {aggregates : List Aggregate} {settings : Settings}
    {q : GroupBy} (lookup : Lookup) :
    GroupBy.new keys aggregates settings = .ok q → IsNew (.groupBy (q.withLookup lookup))
  | countDistinct {fields : List Expr} {name : Option String} {settings : Settings}
    {q : CountDistinct} :
    CountDistinct.new fields name settings = .ok q → IsNew (.countDistinct q)

/-- Two states that differ in the number of merges alone, of an aggregation that was new once. -/
inductive Alike : Aggregation → Aggregation → Aggregation → Prop where
  | groupBy {g : Grouping} {capacity : Nat} {q q' : GroupBy} : q.Alike g capacity q' →
    Alike (.groupBy ⟨g, .new capacity⟩) (.groupBy q) (.groupBy q')
  | countDistinct {fields : List Expr} {name : String} {capacity : Nat} {q q' : CountDistinct} :
    q.Alike fields name capacity q' →
    Alike (.countDistinct ⟨fields, name, Sketch.new capacity⟩) (.countDistinct q)
      (.countDistinct q')

variable {start a a' : Aggregation}

theorem IsNew.alike (h : start.IsNew) : Alike start start start := by
  cases h with
  | groupBy lookup hnew =>
    rw [GroupBy.eq_of_new hnew]
    exact .groupBy ⟨rfl, rfl, rfl, rfl, .new _⟩
  | countDistinct hnew =>
    unfold CountDistinct.new at hnew
    split at hnew
    · cases hnew
    · cases hnew
      exact .countDistinct ⟨rfl, rfl, rfl, rfl, .new _⟩

/-- An aggregation does what its kind does. -/
theorem Alike.respects {β : Type} {f : GroupBy → Transition GroupBy β}
    {f' : CountDistinct → Transition CountDistinct β}
    {whole : Aggregation → Transition Aggregation β}
    (hf : ∀ {g capacity}, Respects (GroupBy.Alike g capacity) f)
    (hf' : ∀ {fields name capacity}, Respects (CountDistinct.Alike fields name capacity) f')
    (hgroupBy : ∀ q, whole (.groupBy q) = (f q).within .groupBy)
    (hcountDistinct : ∀ q, whole (.countDistinct q) = (f' q).within .countDistinct) :
    Respects (Alike start) whole := by
  rintro a a' h
  cases h with
  | groupBy h =>
    obtain ⟨hanswer, hstate⟩ := hf _ _ h
    rw [hgroupBy, hgroupBy]
    exact ⟨hanswer, .groupBy hstate⟩
  | countDistinct h =>
    obtain ⟨hanswer, hstate⟩ := hf' _ _ h
    rw [hcountDistinct, hcountDistinct]
    exact ⟨hanswer, .countDistinct hstate⟩

theorem Alike.respects_consume (r : Record) : Respects (Alike start) fun a => a.consume r :=
  Alike.respects (GroupBy.Alike.respects_consume r) (CountDistinct.Alike.respects_consume r)
    (fun _ => rfl) fun _ => rfl

theorem Alike.respects_combine (bs : Bytes) : Respects (Alike start) fun a => a.combine bs :=
  Alike.respects (GroupBy.Alike.respects_combine bs) (CountDistinct.Alike.respects_combine bs)
    (fun _ => rfl) fun _ => rfl

theorem Alike.respects_data : Respects (Alike start) Aggregation.data :=
  Alike.respects GroupBy.Alike.respects_data CountDistinct.Alike.respects_data
    (fun _ => rfl) fun _ => rfl

theorem Alike.respects_result : Respects (Alike start) Aggregation.result :=
  Alike.respects GroupBy.Alike.respects_result CountDistinct.Alike.respects_result
    (fun _ => rfl) fun _ => rfl

theorem Alike.reset (h : Alike start a a') : Alike start a.reset a'.reset := by
  cases h with
  | groupBy h =>
    exact .groupBy ⟨h.grouping_eq, h.grouping_eq', h.sketch.capacity_eq, h.sketch.capacity_eq',
      h.sketch.sketch.reset⟩
  | countDistinct h =>
    exact .countDistinct ⟨h.fields_eq, h.fields_eq', h.name_eq, h.name_eq', h.sketch.reset⟩

/-- A reset makes an aggregation what it was at first. -/
theorem Alike.new_reset (h : Alike start a a') : Alike start start a'.reset := by
  cases h with
  | groupBy h =>
    exact .groupBy ⟨rfl, h.grouping_eq', rfl, h.sketch.capacity_eq', h.sketch.sketch.new_reset⟩
  | countDistinct h =>
    exact .countDistinct ⟨rfl, h.fields_eq', rfl, h.name_eq', h.sketch.new_reset⟩

end Aggregation

/-! ## Requests -/

/-- What can be asked of an aggregation, or of a query. -/
inductive Request where
  | consume (r : Record)
  | combine (bs : Bytes)
  | data
  | result
  | reset

/-- What is answered. -/
inductive Answer where
  | taken (o : Outcome Unit)
  | sent (o : Outcome Bytes)
  | shown (o : Outcome Batch)
  | forgotten

/-- Requests one after another: what is answered, and the state that is left behind. -/
def answers {σ ω : Type} (serve : σ → Request → ω × σ) (s : σ) : List Request → List ω × σ
  | [] => ([], s)
  | c :: rest =>
    let (answer, s) := serve s c
    let (more, s) := answers serve s rest
    (answer :: more, s)

/-- Where related states answer a request alike and stay related, they answer any number of them
alike. -/
theorem answers_congr {σ ω : Type} {serve : σ → Request → ω × σ} {R : σ → σ → Prop}
    (hserve : ∀ {s s'} c, R s s' → (serve s' c).1 = (serve s c).1 ∧ R (serve s c).2 (serve s' c).2)
    {s s' : σ} (h : R s s') (requests : List Request) :
    (answers serve s' requests).1 = (answers serve s requests).1 ∧
      R (answers serve s requests).2 (answers serve s' requests).2 := by
  induction requests generalizing s s' with
  | nil => exact ⟨rfl, h⟩
  | cons c rest ih =>
    obtain ⟨hanswer, hstate⟩ := hserve c h
    obtain ⟨hmore, hlast⟩ := ih hstate
    refine ⟨?_, hlast⟩
    show (serve s' c).1 :: (answers serve (serve s' c).2 rest).1
      = (serve s c).1 :: (answers serve (serve s c).2 rest).1
    rw [hanswer, hmore]

/-- An aggregation answers a request. -/
def Aggregation.serve (a : Aggregation) : Request → Answer × Aggregation
  | .consume r => (.taken (a.consume r).1, (a.consume r).2)
  | .combine bs => (.taken (a.combine bs).1, (a.combine bs).2)
  | .data => (.sent a.data.1, a.data.2)
  | .result => (.shown a.result.1, a.result.2)
  | .reset => (.forgotten, a.reset)

/-- A query answers a request, and tells the number of records that it has taken. -/
def Query.serve (q : Query) (c : Request) : (Answer × Nat) × Query :=
  let (answer, q) : Answer × Query :=
    match c with
    | .consume r => (.taken (q.consume r).1, (q.consume r).2)
    | .combine bs => (.taken (q.combine bs).1, (q.combine bs).2)
    | .data => (.sent q.data.1, q.data.2)
    | .result => (.shown q.finish.1, q.finish.2)
    | .reset => (.forgotten, q.reset)
  ((answer, q.consumed), q)

namespace Aggregation

variable {start a a' : Aggregation}

theorem Alike.serve (h : Alike start a a') (c : Request) :
    (a'.serve c).1 = (a.serve c).1 ∧ Alike start (a.serve c).2 (a'.serve c).2 := by
  cases c with
  | consume r =>
    obtain ⟨hanswer, hstate⟩ := Alike.respects_consume r a a' h
    exact ⟨congrArg Answer.taken hanswer, hstate⟩
  | combine bs =>
    obtain ⟨hanswer, hstate⟩ := Alike.respects_combine bs a a' h
    exact ⟨congrArg Answer.taken hanswer, hstate⟩
  | data =>
    obtain ⟨hanswer, hstate⟩ := Alike.respects_data a a' h
    exact ⟨congrArg Answer.sent hanswer, hstate⟩
  | result =>
    obtain ⟨hanswer, hstate⟩ := Alike.respects_result a a' h
    exact ⟨congrArg Answer.shown hanswer, hstate⟩
  | reset => exact ⟨rfl, h.reset⟩

end Aggregation

/-! ## Queries -/

namespace Query

variable {start q q' : Query}

/-- Two states that differ in the number of merges alone, of a query that was new once. -/
inductive Alike (start : Query) : Query → Query → Prop where
  | intro {a a' : Aggregation} (consumed : Nat) : start.aggregation.Alike a a' →
    Alike start { start with aggregation := a, consumed } { start with aggregation := a', consumed }

theorem Alike.respects_lift {β : Type} {f : Aggregation → Transition Aggregation β}
    (hf : Respects start.aggregation.Alike f) : Respects (Alike start) fun q => q.lift f := by
  rintro q q' ⟨n, h⟩
  obtain ⟨hanswer, hstate⟩ := hf _ _ h
  exact ⟨hanswer, .intro n hstate⟩

theorem Alike.respects_consume (r : Record) : Respects (Alike start) fun q => q.consume r := by
  refine (respects_lift (Aggregation.Alike.respects_consume r)).andThen fun _ => ?_
  rintro q q' ⟨n, h⟩
  exact ⟨rfl, .intro (n + 1) h⟩

theorem Alike.respects_finish : Respects (Alike start) Query.finish := by
  rintro q q' ⟨n, h⟩
  obtain ⟨hanswer, hstate⟩ := Aggregation.Alike.respects_result _ _ h
  refine ⟨?_, .intro n hstate⟩
  exact congrArg (Except.bind · (complete start)) hanswer

theorem Alike.serve (h : Alike start q q') (c : Request) :
    (q'.serve c).1 = (q.serve c).1 ∧ Alike start (q.serve c).2 (q'.serve c).2 := by
  have hconsumed {q q' : Query} (h : Alike start q q') : q'.consumed = q.consumed := by
    cases h
    rfl
  cases c with
  | consume r =>
    obtain ⟨hanswer, hstate⟩ := Alike.respects_consume r q q' h
    exact ⟨Prod.ext (congrArg Answer.taken hanswer) (hconsumed hstate), hstate⟩
  | combine bs =>
    obtain ⟨hanswer, hstate⟩ := respects_lift (Aggregation.Alike.respects_combine bs) q q' h
    exact ⟨Prod.ext (congrArg Answer.taken hanswer) (hconsumed hstate), hstate⟩
  | data =>
    obtain ⟨hanswer, hstate⟩ := respects_lift Aggregation.Alike.respects_data q q' h
    exact ⟨Prod.ext (congrArg Answer.sent hanswer) (hconsumed hstate), hstate⟩
  | result =>
    obtain ⟨hanswer, hstate⟩ := Alike.respects_finish q q' h
    exact ⟨Prod.ext (congrArg Answer.shown hanswer) (hconsumed hstate), hstate⟩
  | reset =>
    obtain ⟨n, h⟩ := h
    exact ⟨rfl, .intro 0 h.reset⟩

/-- A reset makes a query what it was at first. -/
theorem Alike.new_reset (h : Alike start q q') (hstart : start.consumed = 0) :
    Alike start start q'.reset := by
  obtain ⟨n, h⟩ := h
  obtain ⟨aggregation, pipeline, expansions, settings, consumed⟩ := start
  cases hstart
  exact .intro 0 h.new_reset

/-- A new query has taken no record, and whether it is made does not depend on the aggregation. -/
theorem of_new {a : Aggregation} {stages : List Stage} {expansions : List Expansion}
    {settings : Settings} (h : Query.new a stages expansions settings = .ok q) :
    q.aggregation = a ∧ q.consumed = 0 ∧
      ∀ a', Query.new a' stages expansions settings = .ok { q with aggregation := a' } := by
  simp only [Query.new, bind, Except.bind, pure, Except.pure] at h ⊢
  cases hsettings : settings.validate with
  | error e => simp [hsettings] at h
  | ok _ =>
    cases hpipeline : Pipeline.ofStages stages with
    | error e => simp [hsettings, hpipeline] at h
    | ok pipeline =>
      cases hexpansions : expansions.forM Expansion.validate with
      | error e => simp [hsettings, hpipeline, hexpansions] at h
      | ok _ =>
        simp only [hsettings, hpipeline, hexpansions, Except.ok.injEq] at h
        subst h
        exact ⟨rfl, rfl, fun _ => rfl⟩

end Query

/-! ## Starting over -/

/-- Whatever was asked of an aggregation since it was new, and whatever of it failed, after a reset
it answers all that is asked as the new one would.  So does a query over it, also if the aggregation
had been used before it became part of the query. -/
theorem Aggregation.reset_forgets {start : Aggregation} (h : start.IsNew) (history : List Request) :
    (∀ later, (answers Aggregation.serve (answers Aggregation.serve start history).2.reset later).1
      = (answers Aggregation.serve start later).1) ∧
    ∀ {stages expansions settings q},
      Query.new (answers Aggregation.serve start history).2 stages expansions settings = .ok q →
      ∃ q', Query.new start stages expansions settings = .ok q' ∧
        ∀ history' later, (answers Query.serve (answers Query.serve q history').2.reset later).1
          = (answers Query.serve q' later).1 := by
  have hafter := (answers_congr (fun c h => h.serve c) h.alike history).2
  refine ⟨fun later => ?_, fun {stages expansions settings q} hnew => ?_⟩
  · exact (answers_congr (fun c h => h.serve c) hafter.new_reset later).1
  · obtain ⟨haggregation, hconsumed, hother⟩ := Query.of_new hnew
    refine ⟨{ q with aggregation := start }, hother start, fun history' later => ?_⟩
    have hquery : Query.Alike { q with aggregation := start } q q := by
      obtain ⟨aggregation, pipeline, expansions, settings, consumed⟩ := q
      cases haggregation
      exact .intro consumed hafter
    have hlast := (answers_congr (fun c h => h.serve c) hquery history').2
    exact (answers_congr (fun c h => h.serve c) (hlast.new_reset hconsumed) later).1

/-- A record, a partial result with a text for the number of records, and a result, which fails. -/
def spoiltCountRequests : List Request :=
  [.consume .empty, .combine GroupBy.textCountBytes, .result]

theorem isNew_countAll : (Aggregation.groupBy GroupBy.countAll).IsNew := by
  have hnew : GroupBy.new [] [⟨.count, none, some "n"⟩] { groupEntries := 16 }
      = .ok GroupBy.countAll := rfl
  exact .groupBy Record.lookup hnew

theorem reset_forgets_countAll :
    (Aggregation.groupBy GroupBy.countAll).IsNew ∧
    (∀ later, (answers Aggregation.serve
        (answers Aggregation.serve (.groupBy GroupBy.countAll) spoiltCountRequests).2.reset later).1
      = (answers Aggregation.serve (.groupBy GroupBy.countAll) later).1) ∧
    ∃ q q', Query.new (answers Aggregation.serve (.groupBy GroupBy.countAll) spoiltCountRequests).2
        [] [] {} = .ok q ∧
      Query.new (.groupBy GroupBy.countAll) [] [] {} = .ok q' ∧
        ∀ history later, (answers Query.serve (answers Query.serve q history).2.reset later).1
          = (answers Query.serve q' later).1 := by
  obtain ⟨hforgets, hquery⟩ := Aggregation.reset_forgets isNew_countAll spoiltCountRequests
  refine ⟨isNew_countAll, hforgets, ?_⟩
  have hnew : Query.new
      (answers Aggregation.serve (.groupBy GroupBy.countAll) spoiltCountRequests).2
      [] [] {} = .ok ⟨_, _, [], {}, 0⟩ := rfl
  obtain ⟨q', hstart, hsame⟩ := hquery hnew
  exact ⟨_, q', hnew, hstart, hsame⟩

end StreamQuery
