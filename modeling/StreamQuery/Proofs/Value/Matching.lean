import Mathlib
import StreamQuery.Proofs.Keyed
import StreamQuery.Proofs.Numeric.Words
import StreamQuery.Value
set_option autoImplicit false

/-!
# Values of one shape

Two values match if they are built alike, texts, truth values and keys being the same, and if the
numbers that stand beside each other in them are related in some way.  Every comparison that goes
into lists and maps matches values by its own relation of numbers, so two of them differ only where
their relations do for two numbers beside each other (`Matches.matches_iff`).
-/

namespace StreamQuery.Value

open Numeric

/-! ## What numbers denote -/

/-- The kinds that take part in arithmetic. -/
theorem isNumeric_eq (v : Value) :
    v.isNumeric = match v with
      | integer _ | long _ | float _ | double _ => true
      | _ => false := by
  cases v <;> rfl

/-- The quantity of a number. -/
def quantity? : Value → Option Quantity
  | integer n => some (.finite n.toInt)
  | long n => some (.finite n.toInt)
  | float x => some x.datum.quantity
  | double x => some x.datum.quantity
  | _ => none

theorem isSome_quantity?_iff {v : Value} : v.quantity?.isSome = true ↔ v.isNumeric = true := by
  cases v <;> simp [quantity?, isNumeric_eq]

theorem isNumeric_of_quantity? {v : Value} {q : Quantity} (h : v.quantity? = some q) :
    v.isNumeric = true :=
  isSome_quantity?_iff.1 (by rw [h]; rfl)

/-- Numbers of any kinds that denote one quantity. -/
def SameQuantity (l r : Value) : Prop := l.quantity? = r.quantity?

/-! ## Matching -/

mutual

/-- The values are built alike, and the numbers beside each other in them are related. -/
def Matches (R : Value → Value → Prop) : Value → Value → Prop
  | null, null => True
  | boolean a, boolean b => a = b
  | string s, string t => s = t
  | list xs, list ys => MatchesItems R xs ys
  | map xs, map ys => MatchesEntries R xs ys
  | l, r => l.isNumeric = true ∧ r.isNumeric = true ∧ R l r

/-- Items match one by one. -/
def MatchesItems (R : Value → Value → Prop) : List Value → List Value → Prop
  | [], [] => True
  | x :: xs, y :: ys => Matches R x y ∧ MatchesItems R xs ys
  | _, _ => False

/-- Entries have the same keys and match one by one. -/
def MatchesEntries (R : Value → Value → Prop) :
    List (String × Value) → List (String × Value) → Prop
  | [], [] => True
  | (k, x) :: xs, (l, y) :: ys => k = l ∧ Matches R x y ∧ MatchesEntries R xs ys
  | _, _ => False

end

variable {R S : Value → Value → Prop}

theorem matchesItems_iff : ∀ {xs ys : List Value},
    MatchesItems R xs ys ↔ List.Forall₂ (Matches R) xs ys
  | [], [] => by simp [MatchesItems]
  | [], _ :: _ => by simp [MatchesItems]
  | _ :: _, [] => by simp [MatchesItems]
  | x :: xs, y :: ys => by simp [MatchesItems, matchesItems_iff]

/-- Entries match if they have the same keys and matching values in the same order. -/
theorem matchesEntries_iff : ∀ {xs ys : List (String × Value)},
    MatchesEntries R xs ys ↔ xs.map Prod.fst = ys.map Prod.fst ∧
      List.Forall₂ (Matches R) (xs.map Prod.snd) (ys.map Prod.snd)
  | [], [] => by simp [MatchesEntries]
  | [], _ :: _ => by simp [MatchesEntries]
  | _ :: _, [] => by simp [MatchesEntries]
  | (k, x) :: xs, (l, y) :: ys => by
    simp [MatchesEntries, matchesEntries_iff, and_assoc, and_left_comm]

/-- Maps match if they have the same keys and the values under each key match. -/
theorem matches_ofKeyed_iff {s t : Keyed String Value} :
    Matches R (ofKeyed s) (ofKeyed t) ↔ s.keys = t.keys ∧
      ∀ k x y, s.get? k = some x → t.get? k = some y → Matches R x y := by
  rw [ofKeyed, ofKeyed, Matches, matchesEntries_iff]
  refine and_congr_right fun hkeys => ?_
  have hlength : s.entries.length = t.entries.length := by
    simpa using congrArg List.length hkeys
  have hkey {i : Nat} (hi : i < s.entries.length) (hi' : i < t.entries.length) :
      s.entries[i].1 = t.entries[i].1 := by
    have := List.getElem_of_eq hkeys (by rwa [List.length_map])
    rwa [List.getElem_map, List.getElem_map] at this
  simp only [List.forall₂_iff_get, List.length_map, List.get_eq_getElem, List.getElem_map, hlength,
    true_and, Keyed.get?_eq_some_iff]
  constructor
  · intro h k x y hx hy
    obtain ⟨i, hi, hx⟩ := List.getElem_of_mem hx
    have hi' : i < t.entries.length := hlength ▸ hi
    have hy : t.entries[i] = (k, y) := by
      refine List.inj_on_of_nodup_map t.nodup_keys (List.getElem_mem _) hy ?_
      rw [← hkey hi hi', hx]
    have hmatch := h i hi' hi'
    rwa [hx, hy] at hmatch
  · intro h i hi hi'
    refine h s.entries[i].1 _ _ (List.getElem_mem _) ?_
    rw [hkey (hlength ▸ hi) hi']
    exact List.getElem_mem _

/-- Of two equally large tables the keys are the same if those of the one stand in the other. -/
theorem keys_eq_of_subset {s t : Keyed String Value} (hsize : s.size = t.size)
    (h : s.keys ⊆ t.keys) : s.keys = t.keys := by
  have hlength : t.keys.length ≤ s.keys.length := by
    rw [Keyed.keys, Keyed.keys, List.length_map, List.length_map]
    exact hsize.ge
  have hperm := (List.subperm_of_subset s.nodup_keys h).perm_of_length_le hlength
  have hasc (t : Keyed String Value) :
      t.keys.Pairwise fun k l => Ord.compare k l = .lt := t.ascending.map _ fun _ _ h => h
  refine hperm.eq_of_pairwise (fun k l _ _ hkl hlk => ?_) (hasc s) (hasc t)
  exact absurd (Std.TransCmp.lt_trans hkl hlk) (by rw [Keyed.compare_refl]; decide)

/-- Numbers match if they are related. -/
theorem matches_number_iff {l r : Value} (hl : l.isNumeric = true) (hr : r.isNumeric = true) :
    Matches R l r ↔ R l r := by
  cases l <;> cases r <;> simp_all [Matches, isNumeric_eq]

/-- A list matches lists only. -/
theorem matches_list_left {xs : List Value} {b : Value} :
    Matches R (list xs) b ↔ ∃ ys, b = list ys ∧ MatchesItems R xs ys := by
  cases b <;> simp [Matches, isNumeric_eq]

/-- A map matches maps only. -/
theorem matches_map_left {xs : List (String × Value)} {b : Value} :
    Matches R (map xs) b ↔ ∃ ys, b = map ys ∧ MatchesEntries R xs ys := by
  cases b <;> simp [Matches, isNumeric_eq]

/-! ## Reflexivity and symmetry -/

mutual

/-- A value matches itself if numbers are related to themselves. -/
theorem matches_refl (h : ∀ v : Value, v.isNumeric = true → R v v) : ∀ v : Value, Matches R v v
  | null => trivial
  | boolean _ => rfl
  | string _ => rfl
  | integer n => ⟨rfl, rfl, h (integer n) rfl⟩
  | long n => ⟨rfl, rfl, h (long n) rfl⟩
  | float x => ⟨rfl, rfl, h (float x) rfl⟩
  | double x => ⟨rfl, rfl, h (double x) rfl⟩
  | list xs => matchesItems_refl h xs
  | map xs => matchesEntries_refl h xs

theorem matchesItems_refl (h : ∀ v : Value, v.isNumeric = true → R v v) :
    ∀ xs : List Value, MatchesItems R xs xs
  | [] => trivial
  | x :: xs => ⟨matches_refl h x, matchesItems_refl h xs⟩

theorem matchesEntries_refl (h : ∀ v : Value, v.isNumeric = true → R v v) :
    ∀ xs : List (String × Value), MatchesEntries R xs xs
  | [] => trivial
  | (_, x) :: xs => ⟨rfl, matches_refl h x, matchesEntries_refl h xs⟩

end

mutual

/-- Values match the other way round if numbers are related the other way round. -/
theorem Matches.symm (hsymm : ∀ {l r : Value}, R l r → R r l) :
    ∀ {a b : Value}, Matches R a b → Matches R b a
  | list xs, _, h => by
    obtain ⟨ys, rfl, hitems⟩ := matches_list_left.1 h
    exact hitems.symm hsymm
  | map xs, _, h => by
    obtain ⟨ys, rfl, hentries⟩ := matches_map_left.1 h
    exact hentries.symm hsymm
  | null, b, h => by
    cases b <;> first | exact h | cases h.1
  | boolean _, b, h | string _, b, h => by
    cases b <;> first | exact Eq.symm h | cases h.1
  | integer _, b, h | long _, b, h | float _, b, h | double _, b, h => by
    cases b <;> exact ⟨h.2.1, h.1, hsymm h.2.2⟩

theorem MatchesItems.symm (hsymm : ∀ {l r : Value}, R l r → R r l) :
    ∀ {xs ys : List Value}, MatchesItems R xs ys → MatchesItems R ys xs
  | [], [], h => h
  | _ :: _, _ :: _, h => ⟨h.1.symm hsymm, h.2.symm hsymm⟩

theorem MatchesEntries.symm (hsymm : ∀ {l r : Value}, R l r → R r l) :
    ∀ {xs ys : List (String × Value)}, MatchesEntries R xs ys → MatchesEntries R ys xs
  | [], [], h => h
  | (_, _) :: _, (_, _) :: _, h => ⟨h.1.symm, h.2.1.symm hsymm, h.2.2.symm hsymm⟩

end

/-! ## Values beside each other -/

/-- Values that stand at the same place inside two values. -/
inductive Beside : Value → Value → Value → Value → Prop
  | here (a b : Value) : Beside a b a b
  | item {xs ys : List Value} {x y u v : Value} (h : (x, y) ∈ xs.zip ys) (hb : Beside x y u v) :
    Beside (list xs) (list ys) u v
  | entry {xs ys : List (String × Value)} {k l : String} {x y u v : Value}
    (h : ((k, x), (l, y)) ∈ xs.zip ys) (hb : Beside x y u v) : Beside (map xs) (map ys) u v

/-- The numbers beside each other inside two values are related. -/
def NumbersRelated (S : Value → Value → Prop) (a b : Value) : Prop :=
  ∀ x y, Beside a b x y → x.isNumeric = true → y.isNumeric = true → S x y

theorem numbersRelated_list {xs ys : List Value} :
    NumbersRelated S (list xs) (list ys) ↔ ∀ p ∈ xs.zip ys, NumbersRelated S p.1 p.2 := by
  constructor
  · intro h p hp x y hb
    exact h x y (.item hp hb)
  · rintro h _ _ (_ | ⟨hp, hb⟩) hx hy
    · cases hx
    · exact h _ hp _ _ hb hx hy

theorem numbersRelated_map {xs ys : List (String × Value)} :
    NumbersRelated S (map xs) (map ys) ↔ ∀ p ∈ xs.zip ys, NumbersRelated S p.1.2 p.2.2 := by
  constructor
  · intro h p hp x y hb
    exact h x y (.entry hp hb)
  · rintro h _ _ (_ | _ | ⟨hp, hb⟩) hx hy
    · cases hx
    · exact h _ hp _ _ hb hx hy

section Scalars

variable {a b : Value} (hlist : ∀ xs, a ≠ list xs) (hmap : ∀ xs, a ≠ map xs)
include hlist hmap

/-- Inside a value without parts there is only the value itself. -/
theorem numbersRelated_scalar :
    NumbersRelated S a b ↔ (a.isNumeric = true → b.isNumeric = true → S a b) := by
  constructor
  · intro h
    exact h a b (.here a b)
  · rintro h _ _ (_ | _ | _)
    · exact h
    · exact absurd rfl (hlist _)
    · exact absurd rfl (hmap _)

theorem Matches.matches_iff_scalar (h : Matches R a b) : Matches S a b ↔ NumbersRelated S a b := by
  rw [numbersRelated_scalar hlist hmap]
  cases a with
  | list xs => exact absurd rfl (hlist xs)
  | map xs => exact absurd rfl (hmap xs)
  | _ => cases b <;> simp_all [Matches, isNumeric_eq]

end Scalars

mutual

/-- Values that match in one way match in another if the numbers beside each other do. -/
theorem Matches.matches_iff : ∀ {a b : Value}, Matches R a b →
    (Matches S a b ↔ NumbersRelated S a b)
  | list xs, _, h => by
    obtain ⟨ys, rfl, hitems⟩ := matches_list_left.1 h
    rw [Matches, numbersRelated_list]
    exact hitems.matches_iff
  | map xs, _, h => by
    obtain ⟨ys, rfl, hentries⟩ := matches_map_left.1 h
    rw [Matches, numbersRelated_map]
    exact hentries.matches_iff
  | null, _, h | boolean _, _, h | integer _, _, h | long _, _, h | float _, _, h | double _, _, h
  | string _, _, h => h.matches_iff_scalar nofun nofun

theorem MatchesItems.matches_iff : ∀ {xs ys : List Value}, MatchesItems R xs ys →
    (MatchesItems S xs ys ↔ ∀ p ∈ xs.zip ys, NumbersRelated S p.1 p.2)
  | [], [], _ => by simp [MatchesItems]
  | x :: xs, y :: ys, h => by
    rw [MatchesItems, Matches.matches_iff h.1, MatchesItems.matches_iff h.2, List.zip_cons_cons,
      List.forall_mem_cons]

theorem MatchesEntries.matches_iff : ∀ {xs ys : List (String × Value)}, MatchesEntries R xs ys →
    (MatchesEntries S xs ys ↔ ∀ p ∈ xs.zip ys, NumbersRelated S p.1.2 p.2.2)
  | [], [], _ => by simp [MatchesEntries]
  | (k, x) :: xs, (l, y) :: ys, h => by
    rw [MatchesEntries, Matches.matches_iff h.2.1, MatchesEntries.matches_iff h.2.2,
      List.zip_cons_cons, List.forall_mem_cons]
    exact and_iff_right h.1

end

/-- Values that match in one way fail to match in another because of two numbers beside each other
that are related in the one way and not in the other. -/
theorem Matches.not_matches_iff {a b : Value} (h : Matches R a b) :
    ¬ Matches S a b ↔ ∃ x y, Beside a b x y ∧ x.isNumeric = true ∧ y.isNumeric = true ∧
      R x y ∧ ¬ S x y := by
  have hrelated : NumbersRelated R a b := h.matches_iff.1 h
  rw [h.matches_iff (S := S), NumbersRelated]
  push Not
  constructor
  · rintro ⟨x, y, hb, hx, hy, hS⟩
    exact ⟨x, y, hb, hx, hy, hrelated x y hb hx hy, hS⟩
  · rintro ⟨x, y, hb, hx, hy, -, hS⟩
    exact ⟨x, y, hb, hx, hy, hS⟩

end StreamQuery.Value
