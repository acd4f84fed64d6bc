import StreamQuery.Keyed
set_option autoImplicit false

/-!
# Look-ups in parts of a keyed table

What is found in a table after some of its entries were taken away: by a test on the
keys, or by keeping the entries in front of a given one.  The table is ascending, so
the entries in front of one are exactly those with smaller keys, and putting its entries
into an empty table gives it back.
-/

namespace StreamQuery.Keyed

variable {κ α : Type} [Ord κ] [Std.TransOrd κ]

/-! ## Keys -/

/-- No key stands twice. -/
theorem nodup_keys (t : Keyed κ α) : t.keys.Nodup := by
  refine List.Pairwise.map _ ?_ t.ascending
  intro e e' hlt heq
  rw [heq, compare_refl] at hlt
  cases hlt

/-- The entries in front of the one at a place are those with smaller keys. -/
theorem mem_take_iff {t : Keyed κ α} {n : Nat} {k : κ} {a : α} (h : t.entries[n]? = some (k, a))
    (e : κ × α) : e ∈ t.entries.take n ↔ e ∈ t.entries ∧ compare e.1 k = .lt := by
  obtain ⟨hn, hkey⟩ := List.getElem?_eq_some_iff.1 h
  have hsplit : t.entries = t.entries.take n ++ (k, a) :: t.entries.drop (n + 1) := by
    rw [← hkey, ← List.drop_eq_getElem_cons hn, List.take_append_drop]
  have hasc := t.ascending
  rw [hsplit, List.pairwise_append, List.pairwise_cons] at hasc
  obtain ⟨-, ⟨hafter, -⟩, hbefore⟩ := hasc
  constructor
  · intro he
    exact ⟨List.mem_of_mem_take he, hbefore e he _ List.mem_cons_self⟩
  · rintro ⟨he, hlt⟩
    rw [hsplit, List.mem_append, List.mem_cons] at he
    rcases he with he | rfl | he
    · exact he
    · rw [compare_refl] at hlt
      cases hlt
    · have hgt := Std.TransCmp.lt_trans (hafter e he) hlt
      rw [compare_refl] at hgt
      cases hgt

variable [Std.LawfulEqOrd κ]

/-- A key stands in a table exactly if it is found there. -/
theorem mem_keys_iff {t : Keyed κ α} {k : κ} : k ∈ t.keys ↔ (t.get? k).isSome = true := by
  rw [keys, List.mem_map, Option.isSome_iff_exists]
  constructor
  · rintro ⟨⟨key, a⟩, hmem, rfl⟩
    exact ⟨a, get?_eq_some_iff.2 hmem⟩
  · rintro ⟨a, hget⟩
    exact ⟨(k, a), get?_eq_some_iff.1 hget, rfl⟩

/-- Two look-ups agree when the tables have the same entries under the key. -/
theorem get?_congr {s t : Keyed κ α} {k : κ}
    (h : ∀ a, (k, a) ∈ s.entries ↔ (k, a) ∈ t.entries) : s.get? k = t.get? k := by
  apply Option.ext
  intro a
  rw [get?_eq_some_iff, get?_eq_some_iff]
  exact h a

/-! ## Keeping entries by their keys -/

/-- Keeping the entries whose keys pass a test keeps the look-ups of those keys. -/
theorem get?_filter (t : Keyed κ α) (p : κ → Bool) (k : κ) :
    (t.filter fun e => p e.1).get? k = if p k = true then t.get? k else none := by
  split
  · rename_i hp
    apply get?_congr
    intro a
    simp [filter, hp]
  · rename_i hp
    rw [Option.eq_none_iff_forall_ne_some]
    intro a hget
    have hmem := get?_eq_some_iff.1 hget
    exact hp (List.mem_filter.1 hmem).2

/-! ## Keeping the entries in front of one -/

/-- Keeping the entries in front of one keeps the look-ups of the smaller keys. -/
theorem get?_take {t : Keyed κ α} {n : Nat} {k : κ} {a : α} (h : t.entries[n]? = some (k, a))
    (key : κ) : (t.take n).get? key = if compare key k = .lt then t.get? key else none := by
  split
  · rename_i hlt
    apply get?_congr
    intro b
    rw [take, mem_take_iff h]
    simp [hlt]
  · rename_i hlt
    rw [Option.eq_none_iff_forall_ne_some]
    intro b hget
    exact hlt ((mem_take_iff h _).1 (get?_eq_some_iff.1 hget)).2

/-! ## Lists of entries -/

omit [Std.TransOrd κ] [Std.LawfulEqOrd κ] in
/-- What is found in entries behind others was not found in these. -/
theorem findEntry_append (k : κ) (entries more : List (κ × α)) :
    findEntry k (entries ++ more) = (findEntry k entries).or (findEntry k more) := by
  simp only [findEntry, List.find?_append, Option.map_or]

/-! ## Putting entries in -/

/-- Putting ascending entries in finds each of them, and what was there otherwise. -/
theorem get?_foldl_insert {entries : List (κ × α)}
    (h : entries.Pairwise fun a b => compare a.1 b.1 = .lt) (t : Keyed κ α) (k : κ) :
    (entries.foldl (fun t e => t.insert e.1 e.2) t).get? k
      = (findEntry k entries).or (t.get? k) := by
  induction entries generalizing t with
  | nil => rfl
  | cons e rest ih =>
    rw [List.pairwise_cons] at h
    rw [List.foldl_cons, ih h.2, get?_insert, findEntry_cons]
    by_cases hc : compare e.1 k = .eq
    · have hk : e.1 = k := Std.LawfulEqCmp.eq_of_compare hc
      have hnone : findEntry k rest = none := by
        rw [Option.eq_none_iff_forall_ne_some]
        intro a ha
        have hlt := h.1 _ ((findEntry_eq_some_iff h.2).1 ha)
        rw [hk, compare_refl] at hlt
        cases hlt
      rw [if_pos hc, if_pos hc, hnone]
      rfl
    · rw [if_neg hc, if_neg hc]

/-- A key that no entry has is found as it was. -/
theorem get?_foldl_insert_of_not_mem {entries : List (κ × α)} {k : κ}
    (h : k ∉ entries.map Prod.fst) (t : Keyed κ α) :
    (entries.foldl (fun t e => t.insert e.1 e.2) t).get? k = t.get? k := by
  induction entries generalizing t with
  | nil => rfl
  | cons e rest ih =>
    rw [List.map_cons, List.mem_cons, not_or] at h
    rw [List.foldl_cons, ih h.2, get?_insert_of_ne t (Ne.symm h.1)]

/-- Of entries with different keys each is found. -/
theorem get?_ofList_of_mem {entries : List (κ × α)} (h : (entries.map Prod.fst).Nodup)
    {e : κ × α} (he : e ∈ entries) : (ofList entries).get? e.1 = some e.2 := by
  have hfold (t : Keyed κ α) :
      (entries.foldl (fun t e => t.insert e.1 e.2) t).get? e.1 = some e.2 := by
    induction entries generalizing t with
    | nil => cases he
    | cons e' rest ih =>
      rw [List.map_cons, List.nodup_cons] at h
      rcases List.mem_cons.1 he with rfl | he
      · rw [List.foldl_cons, get?_foldl_insert_of_not_mem h.1, get?_insert_self]
      · exact ih h.2 he _
  exact hfold empty

/-- The table of the entries of a table is that table. -/
theorem ofList_entries (t : Keyed κ α) : ofList t.entries = t := by
  apply ext_get?
  intro k
  rw [ofList, get?_foldl_insert t.ascending, get?_empty, Option.or_none]
  rfl

end StreamQuery.Keyed
