import StreamQuery.Proofs.Sample.Smallest
import StreamQuery.Proofs.Sketch.Gathers
import StreamQuery.Proofs.Sketch.Mapped
import StreamQuery.Proofs.Sketch.Refusing
set_option autoImplicit false

/-!
# What comes first under a hash

Where two values of one hash meet, the one that was there can leave a mark that combining does not
change.  Which value was there first is a matter of how a sketch merges: what was collected in its
unions comes before the result of the merge before, and that before the updates.  So the mark shown
under a hash is the first one in that order, which need not be the order of coming.
-/

namespace StreamQuery

/-! ## Values of which the first stays -/

/-- A value that stays as it is when others come to it. -/
structure First (γ : Type) where
  value : γ

instance (γ : Type) : Combine (First γ) := ⟨fun a _ => .done () a⟩

/-- Values are offered under hashes, and the first one under a hash stays. -/
def firstOffering (γ : Type) : Offering (UInt64 × γ) (First γ) := ⟨Prod.fst, fun x _ => ⟨x.2⟩⟩

theorem combines_firstOffering (γ : Type) : (firstOffering γ).Combines fun _ => True where
  combine_value _ := rfl

variable {α γ : Type}

/-- What is offered under a hash is the first value there. -/
theorem offered_firstOffering (items : List (UInt64 × γ)) (hash : UInt64) :
    (firstOffering γ).offered items hash = (Keyed.findEntry hash items).map First.mk := by
  have hhead (xs : List (UInt64 × γ)) :
      (firstOffering γ).value? xs = (xs.head?.map Prod.snd).map First.mk := by
    cases xs <;> rfl
  have htest : (fun x : UInt64 × γ => x.1 == hash) = fun x => compare x.1 hash == .eq := by
    funext x
    rw [Bool.eq_iff_iff, beq_iff_eq, beq_iff_eq, Std.compare_eq_iff_eq]
  rw [Offering.offered, hhead, Keyed.findEntry, ← htest, ← List.head?_filter]
  rfl

/-- Any sample covers the values that it holds. -/
theorem covers_firsts (t : HashSample (First γ)) (k : Nat) :
    Covers (firstOffering γ) (t.entries.entries.map fun e => (e.1, e.2.value)) t.bound k t where
  below hash _ := by
    rw [offered_firstOffering, Keyed.findEntry_map First.value, Option.map_map]
    exact (Option.map_id_fun' ▸ rfl : t.get? hash = (t.get? hash).map (First.mk ∘ First.value))
  le := UInt64.le_refl _
  cause := .inl rfl

/-! ## Marks -/

variable {f : α → γ} {capacity : Nat} {d : Spread (UInt64 × γ)} {k k' : Sketch α}
  {t : HashSample α}

/-- The marks of what was offered to a sketch are spread over its samples, and under every hash the
first one stays. -/
def Marks (f : α → γ) (capacity : Nat) (d : Spread (UInt64 × γ)) (k : Sketch α) : Prop :=
  Gathers (firstOffering γ) capacity d (k.mapValues fun a => First.mk (f a))

theorem marks_new (f : α → γ) (capacity : Nat) : Marks f capacity .none (Sketch.new capacity) :=
  gathers_new capacity

/-- That unions are pending says nothing about what they are. -/
theorem Marks.alerted (h : Marks f capacity d k) : Marks f capacity d k.alerted :=
  { h with
    no_unions := fun hu => nomatch hu
    idle := fun hi => nomatch hi }

variable [Combine α]

theorem Marks.reset (h : Marks f capacity d k) : Marks f capacity .none (Lazy.reset k) :=
  Gathers.reset h

/-- The mark of a value does not change when others are combined into it. -/
def Stays (f : α → γ) : Prop := ∀ {a b c : α}, Combine.combine a b = .done () c → f c = f a

theorem Stays.respects (hf : Stays f) : HashSample.Respects fun a => First.mk (f a) := by
  rintro a b ⟨⟩ c hdone
  show Transition.done () (First.mk (f a)) = .done () (First.mk (f c))
  rw [hf hdone]

/-- A value that is added leaves its mark behind those of the other updates. -/
theorem Marks.add (hf : Stays f) (h : Marks f capacity d k) {hash : UInt64} {a : α} {kept : Bool}
    (hadd : Sketch.add k hash a = .done kept k') :
    Marks f capacity { d with updates := d.updates ++ [(hash, f a)] } k' := by
  obtain ⟨kept', m, hmarks, hm⟩ := Gathers.add (combines_firstOffering γ) h (x := (hash, f a))
    fun _ _ => trivial
  have hcarried := Sketch.carries_add hf.respects k hash a kept k' hadd
  obtain rfl : m = k'.mapValues _ := congrArg Prod.snd (hmarks.symm.trans hcarried)
  exact hm

/-- A sample that is taken to the unions leaves the marks of its values behind those of the other
unions. -/
theorem Marks.union (hf : Stays f) (h : Marks f capacity d k) {u : HashSample α}
    (hmerge : k.parts.unions.merge t = .done () u) :
    Marks f capacity
      { d with
        unions := d.unions ++ t.entries.entries.map fun e => (e.1, f e.2)
        unionBound := min d.unionBound t.bound }
      { k with parts := { k.parts with unions := u }, unioned := true, stale := true } := by
  have hcovers : Covers (firstOffering γ) (t.entries.entries.map fun e => (e.1, f e.2)) t.bound
      (max capacity 1) (t.mapValues fun a => First.mk (f a)) := by
    have hmarks := covers_firsts (t.mapValues fun a => First.mk (f a)) (max capacity 1)
    rw [show (t.mapValues fun a => First.mk (f a)).entries.entries
      = t.entries.entries.map fun e => (e.1, First.mk (f e.2)) from rfl, List.map_map] at hmarks
    exact hmarks
  obtain ⟨m, hmarks, hm⟩ := Gathers.union (combines_firstOffering γ) h hcovers fun _ _ => trivial
  have hcarried := HashSample.carries_merge hf.respects k.parts.unions t () u hmerge
  obtain rfl : m = u.mapValues _ := congrArg Prod.snd (hmarks.symm.trans hcarried)
  exact hm

/-- A read shows under every hash the mark that comes first: of the unions since the read before, of
the result of that read, and of the updates since then.  It keeps them in this order. -/
theorem Marks.read (hf : Stays f) (h : Marks f capacity d k)
    (hread : Sketch.result k = .done t k') :
    (∀ {hash a}, t.get? hash = some a → Keyed.findEntry hash d.items = some (f a)) ∧
      Marks f capacity (.settled d.items d.bound) k' := by
  obtain ⟨m, k₁, hmarks, hm, hk₁⟩ := Gathers.read (combines_firstOffering γ) h fun _ _ => trivial
  have hcarried := Sketch.carries_result hf.respects k t k' hread
  obtain ⟨rfl, rfl⟩ : m = t.mapValues _ ∧ k₁ = k'.mapValues _ := by
    have hsame := hmarks.symm.trans hcarried
    exact ⟨Except.ok.inj (congrArg Prod.fst hsame), congrArg Prod.snd hsame⟩
  refine ⟨fun {hash a} hget => ?_, hk₁⟩
  have hshown : (t.mapValues fun a => First.mk (f a)).get? hash = some ⟨f a⟩ := by
    rw [HashSample.get?_mapValues, hget]
    rfl
  have hoffered := hm.offered_of_get? hshown
  rw [offered_firstOffering, Option.map_eq_some_iff] at hoffered
  obtain ⟨mark, hfirst, hmark⟩ := hoffered
  cases hmark
  exact hfirst

end StreamQuery
