set_option autoImplicit false

/-!
# Keyed tables

A keyed table holds one value under each of its keys and is ordered by them.  The
order is part of the type, so two tables with the same look-ups are equal
(`Keyed.ext_get?`): a table has no trace of the order in which it was filled.
-/

namespace StreamQuery

/-- A table of values under keys, in ascending order of the keys. -/
structure Keyed (κ α : Type) [Ord κ] where
  entries : List (κ × α)
  ascending : entries.Pairwise fun a b => compare a.1 b.1 = .lt

namespace Keyed

variable {κ α β : Type} [Ord κ]

theorem compare_refl [Std.TransOrd κ] (k : κ) : compare k k = .eq := Std.ReflCmp.compare_self

/-! ## Entries -/

/-- Puts `f` of the present value, if there is one, under a key of an ascending list. -/
def alterEntry (k : κ) (f : Option α → α) : List (κ × α) → List (κ × α)
  | [] => [(k, f none)]
  | (key, value) :: rest =>
    match compare k key with
    | .lt => (k, f none) :: (key, value) :: rest
    | .eq => (key, f (some value)) :: rest
    | .gt => (key, value) :: alterEntry k f rest

/-- The value under a key. -/
def findEntry (k : κ) (entries : List (κ × α)) : Option α :=
  (entries.find? fun e => compare e.1 k == .eq).map (·.2)

@[simp] theorem findEntry_nil (k : κ) : findEntry k ([] : List (κ × α)) = none := rfl

theorem findEntry_cons (k : κ) (e : κ × α) (rest : List (κ × α)) :
    findEntry k (e :: rest) = if compare e.1 k = .eq then some e.2 else findEntry k rest := by
  simp only [findEntry, List.find?_cons]
  by_cases h : compare e.1 k = .eq
  · simp [h]
  · have : (compare e.1 k == .eq) = false := by simpa using h
    simp [h, this]

theorem mem_alterEntry {k : κ} {f : Option α → α} {e : κ × α} {entries : List (κ × α)}
    (h : e ∈ alterEntry k f entries) :
    e.1 = k ∨ ∃ e' ∈ entries, e.1 = e'.1 := by
  induction entries with
  | nil =>
    simp only [alterEntry, List.mem_singleton] at h
    exact .inl (h ▸ rfl)
  | cons hd tl ih =>
    obtain ⟨key, value⟩ := hd
    simp only [alterEntry] at h
    split at h
    · rcases List.mem_cons.1 h with h | h
      · exact .inl (h ▸ rfl)
      · exact .inr ⟨e, h, rfl⟩
    · rcases List.mem_cons.1 h with h | h
      · exact .inr ⟨(key, value), List.mem_cons_self, h ▸ rfl⟩
      · exact .inr ⟨e, List.mem_cons_of_mem _ h, rfl⟩
    · rcases List.mem_cons.1 h with h | h
      · exact .inr ⟨(key, value), List.mem_cons_self, h ▸ rfl⟩
      · rcases ih h with h | ⟨e', he', h⟩
        · exact .inl h
        · exact .inr ⟨e', List.mem_cons_of_mem _ he', h⟩

theorem alterEntry_ascending [Std.TransOrd κ] (k : κ) (f : Option α → α)
    {entries : List (κ × α)} (h : entries.Pairwise fun a b => compare a.1 b.1 = .lt) :
    (alterEntry k f entries).Pairwise fun a b => compare a.1 b.1 = .lt := by
  induction entries with
  | nil => simp [alterEntry]
  | cons hd tl ih =>
    obtain ⟨key, value⟩ := hd
    rw [List.pairwise_cons] at h
    simp only [alterEntry]
    split
    · rename_i hk
      refine List.pairwise_cons.2 ⟨fun e he => ?_, List.pairwise_cons.2 h⟩
      rcases List.mem_cons.1 he with he | he
      · exact he ▸ hk
      · exact Std.TransCmp.lt_trans hk (h.1 e he)
    · exact List.pairwise_cons.2 ⟨fun e he => h.1 e he, h.2⟩
    · rename_i hk
      refine List.pairwise_cons.2 ⟨fun e he => ?_, ih h.2⟩
      rcases mem_alterEntry he with he | ⟨e', he', he⟩
      · simp only [he]
        exact Std.OrientedCmp.lt_of_gt hk
      · simp only [he]
        exact h.1 e' he'

/-! ## Tables -/

/-- The table without entries. -/
def empty : Keyed κ α := ⟨[], .nil⟩

instance : Inhabited (Keyed κ α) := ⟨empty⟩

/-- The value under a key. -/
def get? (t : Keyed κ α) (k : κ) : Option α := findEntry k t.entries

/-- Whether a key has a value. -/
def contains (t : Keyed κ α) (k : κ) : Bool := (t.get? k).isSome

/-- The number of entries. -/
def size (t : Keyed κ α) : Nat := t.entries.length

/-- The keys, ascending. -/
def keys (t : Keyed κ α) : List κ := t.entries.map (·.1)

/-- The values, in the order of their keys. -/
def values (t : Keyed κ α) : List α := t.entries.map (·.2)

/-- Puts a value under a key, in the place of the one there was. -/
def insert [Std.TransOrd κ] (t : Keyed κ α) (k : κ) (a : α) : Keyed κ α :=
  ⟨alterEntry k (fun _ => a) t.entries, alterEntry_ascending k _ t.ascending⟩

/-- The entries that satisfy a test. -/
def filter (t : Keyed κ α) (p : κ × α → Bool) : Keyed κ α :=
  ⟨t.entries.filter p, t.ascending.sublist List.filter_sublist⟩

/-- Takes a key out. -/
def erase (t : Keyed κ α) (k : κ) : Keyed κ α := t.filter fun e => compare e.1 k != .eq

/-- The entries with the smallest keys, as many as are asked for. -/
def take (t : Keyed κ α) (n : Nat) : Keyed κ α :=
  ⟨t.entries.take n, t.ascending.sublist (t.entries.take_sublist n)⟩

/-- The table of a list of entries, where a later entry replaces an earlier one under its key. -/
def ofList [Std.TransOrd κ] (entries : List (κ × α)) : Keyed κ α :=
  entries.foldl (fun t e => t.insert e.1 e.2) empty

/-! ## Look-up laws -/

theorem ext {s t : Keyed κ α} (h : s.entries = t.entries) : s = t := by
  cases s; cases t; cases h; rfl

@[simp] theorem get?_empty (k : κ) : (empty : Keyed κ α).get? k = none := rfl

theorem findEntry_alterEntry [Std.TransOrd κ] [Std.LawfulEqOrd κ] (k k' : κ)
    (f : Option α → α) {entries : List (κ × α)}
    (h : entries.Pairwise fun a b => compare a.1 b.1 = .lt) :
    findEntry k' (alterEntry k f entries)
      = if compare k k' = .eq then some (f (findEntry k entries)) else findEntry k' entries := by
  induction entries with
  | nil => simp [alterEntry, findEntry_cons]
  | cons hd tl ih =>
    obtain ⟨key, value⟩ := hd
    rw [List.pairwise_cons] at h
    simp only [alterEntry]
    have none_of_lt : compare k key = .lt → findEntry k ((key, value) :: tl) = none := by
      intro hk
      simp only [findEntry, Option.map_eq_none_iff, List.find?_eq_none]
      intro e he hc
      have hlt : compare k e.1 = .lt := by
        rcases List.mem_cons.1 he with he | he
        · exact he ▸ hk
        · exact Std.TransCmp.lt_trans hk (h.1 e he)
      have heq : e.1 = k := Std.LawfulEqCmp.eq_of_compare (beq_iff_eq.1 hc)
      rw [heq, compare_refl] at hlt
      cases hlt
    split
    · rename_i hk
      rw [findEntry_cons, none_of_lt hk]
    · rename_i hk
      have hkey : k = key := Std.LawfulEqCmp.eq_of_compare hk
      subst hkey
      by_cases hc : compare k k' = .eq
      · simp [findEntry_cons, hc]
      · simp [findEntry_cons, hc]
    · rename_i hk
      rw [findEntry_cons, ih h.2, findEntry_cons, findEntry_cons]
      by_cases hc : compare k k' = .eq
      · have hkk : k = k' := Std.LawfulEqCmp.eq_of_compare hc
        subst hkk
        have : compare key k ≠ .eq := by
          intro hkey
          have heq : key = k := Std.LawfulEqCmp.eq_of_compare hkey
          rw [heq, compare_refl] at hk
          cases hk
        simp [this]
      · simp [hc]

/-- A key that was put in is found; the others are found as before. -/
theorem get?_insert [Std.TransOrd κ] [Std.LawfulEqOrd κ] (t : Keyed κ α) (k k' : κ) (a : α) :
    (t.insert k a).get? k' = if compare k k' = .eq then some a else t.get? k' :=
  findEntry_alterEntry k k' _ t.ascending

theorem get?_insert_self [Std.TransOrd κ] [Std.LawfulEqOrd κ] (t : Keyed κ α) (k : κ) (a : α) :
    (t.insert k a).get? k = some a := by
  rw [get?_insert, if_pos (compare_refl k)]

theorem get?_insert_of_ne [Std.TransOrd κ] [Std.LawfulEqOrd κ] (t : Keyed κ α) {k k' : κ}
    (h : k ≠ k') (a : α) : (t.insert k a).get? k' = t.get? k' := by
  rw [get?_insert, if_neg fun hc => h (Std.LawfulEqCmp.eq_of_compare hc)]

theorem findEntry_eq_some_iff [Std.TransOrd κ] [Std.LawfulEqOrd κ] {k : κ} {a : α}
    {entries : List (κ × α)} (h : entries.Pairwise fun a b => compare a.1 b.1 = .lt) :
    findEntry k entries = some a ↔ (k, a) ∈ entries := by
  induction entries with
  | nil => simp
  | cons hd tl ih =>
    obtain ⟨key, value⟩ := hd
    rw [List.pairwise_cons] at h
    rw [findEntry_cons]
    by_cases hc : compare key k = .eq
    · have heq : key = k := Std.LawfulEqCmp.eq_of_compare hc
      subst heq
      rw [if_pos hc]
      constructor
      · intro hv
        exact Option.some.inj hv ▸ List.mem_cons_self
      · intro hm
        rcases List.mem_cons.1 hm with hm | hm
        · rw [(Prod.mk.inj hm).2]
        · have hlt := h.1 _ hm
          rw [compare_refl] at hlt
          cases hlt
    · rw [if_neg hc, ih h.2]
      constructor
      · exact List.mem_cons_of_mem _
      · intro hm
        rcases List.mem_cons.1 hm with hm | hm
        · have hk : k = key := (Prod.mk.inj hm).1
          subst hk
          exact absurd (compare_refl k) hc
        · exact hm

/-- A value is found under a key exactly if it stands there. -/
theorem get?_eq_some_iff [Std.TransOrd κ] [Std.LawfulEqOrd κ] {t : Keyed κ α} {k : κ} {a : α} :
    t.get? k = some a ↔ (k, a) ∈ t.entries :=
  findEntry_eq_some_iff t.ascending

theorem not_mem_of_ascending [Std.TransOrd κ] {e : κ × α} {rest : List (κ × α)}
    (h : (e :: rest).Pairwise fun a b => compare a.1 b.1 = .lt) : e ∉ rest := by
  intro hm
  have hlt := (List.pairwise_cons.1 h).1 e hm
  rw [compare_refl] at hlt
  cases hlt

theorem entries_eq_of_mem_iff [Std.TransOrd κ] {s t : List (κ × α)}
    (hs : s.Pairwise fun a b => compare a.1 b.1 = .lt)
    (ht : t.Pairwise fun a b => compare a.1 b.1 = .lt) (h : ∀ e, e ∈ s ↔ e ∈ t) : s = t := by
  induction s generalizing t with
  | nil =>
    cases t with
    | nil => rfl
    | cons b t => exact absurd ((h b).2 List.mem_cons_self) List.not_mem_nil
  | cons a s ih =>
    cases t with
    | nil => exact absurd ((h a).1 List.mem_cons_self) List.not_mem_nil
    | cons b t =>
      have hab : a = b := by
        rcases List.mem_cons.1 ((h a).1 List.mem_cons_self) with hm | hm
        · exact hm
        · rcases List.mem_cons.1 ((h b).2 List.mem_cons_self) with hm' | hm'
          · exact hm'.symm
          · have h1 := (List.pairwise_cons.1 ht).1 a hm
            have h2 := (List.pairwise_cons.1 hs).1 b hm'
            have h3 := Std.TransCmp.lt_trans h1 h2
            rw [compare_refl] at h3
            cases h3
      subst hab
      rw [ih (List.pairwise_cons.1 hs).2 (List.pairwise_cons.1 ht).2]
      intro e
      constructor
      · intro he
        rcases List.mem_cons.1 ((h e).1 (List.mem_cons_of_mem _ he)) with hm | hm
        · exact absurd (hm ▸ he) (not_mem_of_ascending hs)
        · exact hm
      · intro he
        rcases List.mem_cons.1 ((h e).2 (List.mem_cons_of_mem _ he)) with hm | hm
        · exact absurd (hm ▸ he) (not_mem_of_ascending ht)
        · exact hm

/-- Tables with the same look-ups are equal. -/
theorem ext_get? [Std.TransOrd κ] [Std.LawfulEqOrd κ] {s t : Keyed κ α}
    (h : ∀ k, s.get? k = t.get? k) : s = t := by
  refine ext (entries_eq_of_mem_iff s.ascending t.ascending ?_)
  rintro ⟨k, a⟩
  rw [← get?_eq_some_iff, ← get?_eq_some_iff, h k]

end Keyed

end StreamQuery
