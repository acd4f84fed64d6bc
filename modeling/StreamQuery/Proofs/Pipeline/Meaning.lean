import Mathlib.Data.List.Perm.Basic
import StreamQuery.Pipeline
import StreamQuery.Proofs.Keyed
import StreamQuery.Proofs.Outcomes
set_option autoImplicit false

/-!
# What a pipeline means

However its stages were declared, a pipeline keeps the records whose original fields satisfy every
predicate, computes the fields of all COMPUTATION stages on each of them, sorts by each ORDER BY
stage in turn, and then removes the names of all CULLING stages (`Pipeline.run_means`).  It fails
exactly if an expression fails on a record that is kept.
-/

namespace StreamQuery

/-! ## Stages by kind -/

namespace Stage

/-- The predicate of a HAVING stage. -/
def predicate? : Stage → Option Expr
  | having predicate => some predicate
  | _ => none

/-- The fields of a COMPUTATION stage. -/
def computed? : Stage → Option (List ComputedField)
  | computation fields => some fields
  | _ => none

/-- The keys of an ORDER BY stage. -/
def sortKeys? : Stage → Option (List SortKey)
  | orderBy sortKeys => some sortKeys
  | _ => none

/-- The names of a CULLING stage. -/
def culled? : Stage → Option (List String)
  | culling fields => some fields
  | _ => none

/-- The predicates that are declared. -/
def predicates (declared : List Stage) : List Expr := declared.filterMap predicate?

/-- The fields that are computed, one after another. -/
def computedFields (declared : List Stage) : List ComputedField :=
  (declared.filterMap computed?).flatten

/-- The sortings that are declared. -/
def sortings (declared : List Stage) : List (List SortKey) := declared.filterMap sortKeys?

/-- The names that are removed. -/
def culledNames (declared : List Stage) : List String := (declared.filterMap culled?).flatten

/-- The records whose fields satisfy every declared predicate. -/
def survivors (declared : List Stage) (records : List Record) : List Record :=
  records.filter fun r => (predicates declared).all fun predicate => passes predicate r

/-- The stages of one kind are made of what they declare. -/
theorem filter_kind {β : Type} (kind : StageKind) (get? : Stage → Option β) (make : β → Stage)
    (h : ∀ s : Stage, (get? s).map make = if s.kind = kind then some s else none)
    (declared : List Stage) :
    (declared.filter fun s => s.kind == kind) = (declared.filterMap get?).map make := by
  rw [List.map_filterMap]
  induction declared with
  | nil => rfl
  | cons s rest ih =>
    rw [List.filter_cons, List.filterMap_cons, h s, ih]
    by_cases hkind : s.kind = kind
    · simp [hkind]
    · simp [hkind]

/-- The declared stages in the order in which they run. -/
theorem inOrder_eq (declared : List Stage) :
    Pipeline.inOrder declared
      = (predicates declared).map having ++ ((declared.filterMap computed?).map computation ++
        ((sortings declared).map orderBy ++ (declared.filterMap culled?).map culling)) := by
  have hhaving := filter_kind .having predicate? having
    (fun s => by cases s <;> rfl) declared
  have hcomputation := filter_kind .computation computed? computation
    (fun s => by cases s <;> rfl) declared
  have horderBy := filter_kind .orderBy sortKeys? orderBy
    (fun s => by cases s <;> rfl) declared
  have hculling := filter_kind .culling culled? culling
    (fun s => by cases s <;> rfl) declared
  simp only [Pipeline.inOrder, Pipeline.kinds, List.flatMap_cons, List.flatMap_nil,
    List.append_nil, hhaving, hcomputation, horderBy, hculling, predicates, sortings]

end Stage

/-! ## Computing on every record -/

namespace ComputedField

variable {fields more : List ComputedField} {r c : Record}

/-- Each field is set to the value of its expression on the record with the fields before set. -/
inductive Computes : List ComputedField → Record → Record → Prop
  | nil {r : Record} : Computes [] r r
  | cons {f : ComputedField} {rest : List ComputedField} {r c : Record} {v : Value}
      (hvalue : f.expression.eval Record.lookup r = .ok v)
      (hrest : Computes rest (r.set f.name v) c) : Computes (f :: rest) r c

/-- An expression fails on the record with the fields before set. -/
inductive FailsOn : List ComputedField → Record → Prop
  | here {f : ComputedField} {rest : List ComputedField} {r : Record} {e : QueryError}
      (hvalue : f.expression.eval Record.lookup r = .error e) : FailsOn (f :: rest) r
  | later {f : ComputedField} {rest : List ComputedField} {r : Record} {v : Value}
      (hvalue : f.expression.eval Record.lookup r = .ok v)
      (hrest : FailsOn rest (r.set f.name v)) : FailsOn (f :: rest) r

/-- The first field decides on how the others go on. -/
theorem setAll_cons (f : ComputedField) (rest : List ComputedField) (r : Record) :
    setAll (f :: rest) r = (f.expression.eval Record.lookup r).bind fun v =>
      setAll rest (r.set f.name v) := by
  show (setIn r f).bind (setAll rest) = _
  rw [setIn]
  cases f.expression.eval Record.lookup r <;> rfl

theorem setAll_eq_ok_iff : setAll fields r = .ok c ↔ Computes fields r c := by
  induction fields generalizing r with
  | nil =>
    constructor
    · intro h
      cases h
      exact .nil
    · rintro ⟨⟩
      rfl
  | cons f rest ih =>
    rw [setAll_cons]
    cases hf : f.expression.eval Record.lookup r with
    | error e =>
      refine ⟨nofun, fun h => ?_⟩
      cases h with
      | cons hvalue => cases hf.symm.trans hvalue
    | ok v =>
      constructor
      · exact fun h => .cons hf (ih.1 h)
      · intro h
        cases h with
        | cons hvalue hrest =>
          cases hf.symm.trans hvalue
          exact ih.2 hrest

theorem setAll_eq_error_iff : (∃ e, setAll fields r = .error e) ↔ FailsOn fields r := by
  induction fields generalizing r with
  | nil => exact ⟨nofun, nofun⟩
  | cons f rest ih =>
    rw [setAll_cons]
    cases hf : f.expression.eval Record.lookup r with
    | error e => exact ⟨fun _ => .here hf, fun _ => ⟨e, rfl⟩⟩
    | ok v =>
      constructor
      · exact fun h => .later hf (ih.1 h)
      · intro h
        cases h with
        | here hvalue => cases hf.symm.trans hvalue
        | later hvalue hrest =>
          cases hf.symm.trans hvalue
          exact ih.2 hrest

/-- Fields behind others are computed on what these made of the record. -/
theorem computes_append_iff :
    Computes (fields ++ more) r c ↔ ∃ r', Computes fields r r' ∧ Computes more r' c := by
  simp only [← setAll_eq_ok_iff, setAll, List.foldlM_append, bind_eq_ok_iff]

/-- Fields can be computed exactly if no expression fails. -/
theorem exists_computes_iff : (∃ c, Computes fields r c) ↔ ¬ FailsOn fields r := by
  simp only [← setAll_eq_ok_iff, ← setAll_eq_error_iff]
  cases setAll fields r <;> simp

end ComputedField

/-! ## Removing names -/

theorem Record.get?_removeAll (r : Record) (p : String → Bool) (name : String) :
    (r.removeAll p).get? name = if p name then none else r.get? name := by
  have hfilter : (r.removeAll p).get? name = if (!p name) = true then r.get? name else none :=
    r.fields.get?_filter (fun name => !p name) name
  rw [hfilter]
  cases p name <;> rfl

/-- Names that are removed one after another are removed together. -/
theorem Record.removeAll_removeAll (r : Record) (p q : String → Bool) :
    (r.removeAll p).removeAll q = r.removeAll fun name => p name || q name := by
  apply Record.ext_get?
  intro name
  rw [get?_removeAll, get?_removeAll, get?_removeAll]
  cases p name <;> cases q name <;> rfl

/-! ## Sorting -/

/-- Sorting loses nothing and adds nothing. -/
theorem SortKey.sort_perm (ks : List SortKey) (records : List Record) :
    (SortKey.sort ks records).Perm records := by
  have hperm := (mergeSort_perm (fun a b => orderRows ks a.1 b.1)
    (records.map fun r => (row ks r, r))).map (·.2)
  rwa [List.map_map, show ((·.2) ∘ fun r : Record => (row ks r, r)) = id from rfl,
    List.map_id] at hperm

/-- Sorts records by one sorting after another. -/
def SortKey.sortAll (sortings : List (List SortKey)) (records : List Record) : List Record :=
  sortings.foldl (fun records ks => SortKey.sort ks records) records

theorem SortKey.sortAll_perm (sortings : List (List SortKey)) (records : List Record) :
    (SortKey.sortAll sortings records).Perm records := by
  induction sortings generalizing records with
  | nil => exact .refl _
  | cons ks rest ih => exact (ih _).trans (sort_perm ks records)

/-! ## Stages of one kind, one after another -/

namespace Stage

variable {b b' : Batch}

theorem foldlM_having (predicates : List Expr) (b : Batch) :
    (predicates.map having).foldlM run b
      = .ok (b.filter fun r => predicates.all fun predicate => passes predicate r) := by
  induction predicates generalizing b with
  | nil =>
    show Except.ok b = .ok (b.filter fun _ => true)
    rw [Batch.filter, List.filter_true]
    rfl
  | cons predicate rest ih =>
    show (rest.map having).foldlM run (b.filter (passes predicate)) = _
    rw [ih]
    simp only [Batch.filter, Batch.withRecords, List.filter_filter, List.all_cons, Bool.and_comm]

/-- Stages that compute succeed with what all their fields make of each record. -/
theorem foldlM_computation (stages : List (List ComputedField)) :
    (stages.map computation).foldlM run b = .ok b' ↔ ∃ computed,
      List.Forall₂ (ComputedField.Computes stages.flatten) b.records computed ∧
        b' = b.withRecords computed := by
  induction stages generalizing b with
  | nil =>
    have hsame : ComputedField.Computes [] = @Eq Record := by
      funext r c
      exact propext ⟨fun h => by cases h; rfl, fun h => h ▸ .nil⟩
    show Except.ok b = .ok b' ↔ ∃ computed,
      List.Forall₂ (ComputedField.Computes []) b.records computed ∧ _
    simp only [hsame, List.forall₂_eq_eq_eq, exists_eq_left', Except.ok.injEq]
    exact eq_comm
  | cons fields rest ih =>
    have hrun (b₁ : Batch) : run b (computation fields) = .ok b₁ ↔ ∃ rs,
        List.Forall₂ (ComputedField.Computes fields) b.records rs ∧
          b₁ = b.withRecords rs := by
      have hall (rs : List Record) : List.Forall₂ (ComputedField.Computes fields) b.records rs
          ↔ b.records.mapM (ComputedField.setAll fields) = .ok rs := by
        simp only [mapM_eq_ok_iff, ComputedField.setAll_eq_ok_iff]
      simp only [hall, run]
      cases b.records.mapM (ComputedField.setAll fields) with
      | error e => simp [Except.map]
      | ok rs => simp [Except.map, eq_comm]
    have hboth (computed : List Record) :
        List.Forall₂ (ComputedField.Computes (fields ++ rest.flatten)) b.records computed
          ↔ ∃ rs, List.Forall₂ (ComputedField.Computes fields) b.records rs ∧
            List.Forall₂ (ComputedField.Computes rest.flatten) rs computed := by
      simp only [exists_forall₂_comp_iff, ← ComputedField.computes_append_iff]
    simp only [List.map_cons, List.foldlM_cons, bind_eq_ok_iff, hrun, ih, List.flatten_cons, hboth]
    constructor
    · rintro ⟨_, ⟨rs, hrs, rfl⟩, computed, hcomputed, rfl⟩
      exact ⟨computed, ⟨rs, hrs, hcomputed⟩, rfl⟩
    · rintro ⟨computed, ⟨rs, hrs, hcomputed⟩, rfl⟩
      exact ⟨_, ⟨rs, hrs, rfl⟩, computed, hcomputed, rfl⟩

theorem foldlM_orderBy (sortings : List (List SortKey)) (b : Batch) :
    (sortings.map orderBy).foldlM run b
      = .ok (b.withRecords (SortKey.sortAll sortings b.records)) := by
  induction sortings generalizing b with
  | nil => rfl
  | cons ks rest ih => exact ih _

theorem foldlM_culling (names : List (List String)) (b : Batch) :
    (names.map culling).foldlM run b
      = .ok (b.withRecords (b.records.map fun r => r.removeAll names.flatten.contains)) := by
  induction names generalizing b with
  | nil =>
    have hnone (r : Record) : r.removeAll ([] : List String).contains = r := by
      apply Record.ext_get?
      intro name
      exact Record.get?_removeAll r _ name
    simp only [List.flatten_nil, hnone, List.map_id']
    rfl
  | cons fields rest ih =>
    show (rest.map culling).foldlM run
      (b.withRecords (b.records.map fun r => r.removeAll fields.contains)) = _
    have htogether : (fun name => fields.contains name || rest.flatten.contains name)
        = (fields ++ rest.flatten).contains := by
      funext name
      exact List.contains_append.symm
    rw [ih]
    simp only [Batch.withRecords, List.map_map, Function.comp_def, Record.removeAll_removeAll,
      List.flatten_cons, htogether]

end Stage

/-! ## Pipelines -/

namespace Pipeline

open Stage

variable {declared : List Stage} {b b' : Batch}

/-- A pipeline succeeds with the records that are kept, computed, sorted and culled. -/
theorem foldlM_inOrder :
    (inOrder declared).foldlM Stage.run b = .ok b' ↔ ∃ computed,
      List.Forall₂ (ComputedField.Computes (computedFields declared))
        (survivors declared b.records) computed ∧
        b' = b.withRecords ((SortKey.sortAll (sortings declared) computed).map fun r =>
          r.removeAll (culledNames declared).contains) := by
  simp only [inOrder_eq, List.foldlM_append, bind_eq_ok_iff, foldlM_having, foldlM_computation,
    foldlM_orderBy, foldlM_culling, Except.ok.injEq]
  constructor
  · rintro ⟨_, rfl, _, ⟨computed, hcomputed, rfl⟩, _, rfl, rfl⟩
    exact ⟨computed, hcomputed, rfl⟩
  · rintro ⟨computed, hcomputed, rfl⟩
    exact ⟨_, rfl, _, ⟨computed, hcomputed, rfl⟩, _, rfl, rfl⟩

/-- Stages that are valid make a pipeline. -/
theorem ofStages_of_valid (h : ∀ s ∈ declared, s.validate = .ok ()) :
    ofStages declared = .ok ⟨inOrder declared⟩ := by
  have hall (stages : List Stage) (hstages : ∀ s ∈ stages, s.validate = .ok ()) :
      stages.forM Stage.validate = .ok () := by
    induction stages with
    | nil => rfl
    | cons s rest ih =>
      show (s.validate >>= fun _ => rest.forM Stage.validate) = .ok ()
      rw [hstages s List.mem_cons_self]
      exact ih fun s hs => hstages s (List.mem_cons_of_mem _ hs)
  have hvalid : (inOrder declared).forM Stage.validate = .ok () := by
    apply hall
    intro s hs
    obtain ⟨kind, -, hkind⟩ := List.mem_flatMap.1 hs
    exact h s (List.mem_of_mem_filter hkind)
  rw [ofStages, hvalid]
  rfl

/-- What a pipeline of declared stages makes of a batch. -/
structure Means (declared : List Stage) (b : Batch) (outcome : Outcome Batch) : Prop where
  /-- It fails exactly if an expression fails on a record that is kept, as updated so far. -/
  fails_iff : (∃ e, outcome = .error e) ↔ ∃ r ∈ survivors declared b.records,
    ComputedField.FailsOn (computedFields declared) r
  /-- Otherwise records are kept by their original fields, computed, sorted by the computed fields,
  and culled; the metadata stays as it is. -/
  result : ∀ b', outcome = .ok b' → ∃ computed,
    List.Forall₂ (ComputedField.Computes (computedFields declared))
      (survivors declared b.records) computed ∧
      b'.records = ((SortKey.sortAll (sortings declared) computed).map fun r =>
        r.removeAll (culledNames declared).contains) ∧ b'.metadata = b.metadata
  /-- No record that comes out has a culled field. -/
  culled : ∀ b', outcome = .ok b' → ∀ r ∈ b'.records, ∀ name ∈ culledNames declared,
    r.has name = false
  /-- Each record that comes out is made of one that is kept, and each of these of one. -/
  onto : ∀ b', outcome = .ok b' → ∃ sources, sources.Perm (survivors declared b.records) ∧
    List.Forall₂ (fun r out => ∃ c,
      ComputedField.Computes (computedFields declared) r c ∧
      out = c.removeAll (culledNames declared).contains) sources b'.records

theorem means_foldlM (declared : List Stage) (b : Batch) :
    Means declared b ((inOrder declared).foldlM Stage.run b) where
  fails_iff := by
    have herror (outcome : Outcome Batch) :
        (∃ e, outcome = .error e) ↔ ¬ ∃ b', outcome = .ok b' := by
      cases outcome <;> simp
    have hok : (∃ b', (inOrder declared).foldlM Stage.run b = .ok b')
        ↔ ∀ r ∈ survivors declared b.records,
          ∃ c, ComputedField.Computes (computedFields declared) r c := by
      rw [← exists_forall₂_iff]
      simp only [foldlM_inOrder]
      exact ⟨fun ⟨_, computed, hcomputed, _⟩ => ⟨computed, hcomputed⟩,
        fun ⟨computed, hcomputed⟩ => ⟨_, computed, hcomputed, rfl⟩⟩
    simp only [herror, hok, ComputedField.exists_computes_iff, not_forall, exists_prop, not_not]
  result b' h := by
    obtain ⟨computed, hcomputed, rfl⟩ := foldlM_inOrder.1 h
    exact ⟨computed, hcomputed, rfl, rfl⟩
  culled b' h := by
    obtain ⟨computed, -, rfl⟩ := foldlM_inOrder.1 h
    intro r hr name hname
    obtain ⟨c, -, rfl⟩ := List.mem_map.1 hr
    have hnone : (c.removeAll (culledNames declared).contains).get? name = none := by
      rw [Record.get?_removeAll, if_pos (List.contains_iff_mem.2 hname)]
    exact Option.isSome_eq_false_iff.2 (Option.isNone_iff_eq_none.2 hnone)
  onto b' h := by
    obtain ⟨computed, hcomputed, rfl⟩ := foldlM_inOrder.1 h
    obtain ⟨sources, hsources, hperm⟩ := List.perm_comp_forall₂
      (SortKey.sortAll_perm (sortings declared) computed) hcomputed.flip
    refine ⟨sources, hperm, List.forall₂_map_right_iff.2 (hsources.flip.imp ?_)⟩
    exact fun _ c hc => ⟨c, hc, rfl⟩

/-! ## The order of declaration -/

/-- Valid stages make a pipeline that filters, computes, sorts and culls, in this order; the same
stages declared in any other order make the same pipeline, as long as stages of one kind keep
theirs. -/
theorem run_means (h : ∀ s ∈ declared, s.validate = .ok ()) :
    ∃ p, ofStages declared = .ok p ∧ (∀ b, Means declared b (p.run b)) ∧
      ∀ declared' : List Stage,
        (∀ kind : StageKind, (declared'.filter fun s => s.kind == kind)
          = declared.filter fun s => s.kind == kind) → ofStages declared' = .ok p := by
  refine ⟨⟨inOrder declared⟩, ofStages_of_valid h, means_foldlM declared, ?_⟩
  intro declared' hkinds
  have hsame : inOrder declared' = inOrder declared := by
    simp only [inOrder, hkinds]
  have hmade := ofStages_of_valid h
  rw [ofStages, hsame] at *
  exact hmade

/-- Stages that are declared the wrong way round: a field is culled that sorts, is computed and
stands in the predicate. -/
def backwards : List Stage :=
  [.culling ["b"], .orderBy [⟨.column "b", .descending⟩],
    .computation [⟨"b", .binary (.column "a") .add (.column "b")⟩, ⟨"c", .column "b"⟩],
    .having (.binary (.column "b") .greaterThan (.literal "1" .long))]

theorem run_means_backwards :
    (∀ s ∈ backwards, s.validate = .ok ()) ∧
      ∃ p, ofStages backwards = .ok p ∧ (∀ b, Means backwards b (p.run b)) ∧
        (∀ kind : StageKind, (backwards.reverse.filter fun s => s.kind == kind)
          = backwards.filter fun s => s.kind == kind) ∧ ofStages backwards.reverse = .ok p := by
  have hvalid : ∀ s ∈ backwards, s.validate = .ok () := by decide +kernel
  have hkinds (kind : StageKind) : (backwards.reverse.filter fun s => s.kind == kind)
      = backwards.filter fun s => s.kind == kind := by
    cases kind <;> rfl
  obtain ⟨p, hmade, hmeans, hreorder⟩ := run_means hvalid
  exact ⟨hvalid, p, hmade, hmeans, hkinds, hreorder _ hkinds⟩

end Pipeline

end StreamQuery
