import StreamQuery.Json.Alternative
import StreamQuery.Proofs.Json.Reading
import Mathlib.Data.List.Nodup
set_option autoImplicit false

/-!
# Reading back structures

The fields of a structure that is written with all of them are found again, and so are the
items of a list, when each of them is.
-/

namespace StreamQuery.Json

/-! ## Lists -/

section Lists

variable {α β : Type} {as : List α}

theorem mapM_congr {f g : α → Option β} (h : ∀ a ∈ as, f a = g a) : as.mapM f = as.mapM g := by
  induction as with
  | nil => rfl
  | cons a rest ih =>
    rw [List.mapM_cons, List.mapM_cons, h a List.mem_cons_self,
      ih fun a ha => h a (List.mem_cons_of_mem _ ha)]

/-- A list whose items are all read is read item by item. -/
theorem mapM_eq_some_map {f : α → Option β} {g : α → β} (h : ∀ a ∈ as, f a = some (g a)) :
    as.mapM f = some (as.map g) := by
  induction as with
  | nil => rfl
  | cons a rest ih =>
    rw [List.mapM_cons, h a List.mem_cons_self, ih fun a ha => h a (List.mem_cons_of_mem _ ha)]
    rfl

/-- Items that are all read as they are make the same list. -/
theorem mapM_eq_some_self {f : α → Option α} (h : ∀ a ∈ as, f a = some a) :
    as.mapM f = some as := by
  rw [mapM_eq_some_map (g := id) h, List.map_id]

/-- A list is read if all its items are. -/
theorem isSome_mapM_iff {f : α → Option β} :
    (as.mapM f).isSome = true ↔ ∀ a ∈ as, (f a).isSome = true := by
  induction as with
  | nil => simp
  | cons a rest ih =>
    rw [List.mapM_cons, List.forall_mem_cons, ← ih]
    cases f a with
    | none => simp
    | some b => cases rest.mapM f <;> simp

/-- What is written item by item is read back item by item. -/
theorem mapM_map_eq_some {write : α → β} {read : β → Option α}
    (h : ∀ a ∈ as, read (write a) = some a) : (as.map write).mapM read = some as := by
  rw [List.mapM_map]
  exact mapM_eq_some_self h

end Lists

/-! ## Fields -/

theorem asString?_ofString (s : String) : (ofString s).asString? = some s :=
  decodeText?_encodeText s

theorem asOptional?_ofOption (text : Option String) :
    (ofOption ofString text).asOptional? asString? = some text := by
  cases text with
  | none => rfl
  | some s =>
    show (ofString s).asString?.map some = _
    rw [asString?_ofString]
    rfl

theorem asMembers?_ofMembers (members : List (String × Json)) :
    (ofMembers members).asMembers? = some members :=
  mapM_map_eq_some fun m _ => by rw [named?, decodeText?_encodeText]; rfl

/-- A name that stands once has one member. -/
theorem membersNamed_of_nodup {members : List (String × Json)} (h : (members.map (·.1)).Nodup)
    {m : String × Json} (hm : m ∈ members) : membersNamed m.1 members = [m.2] := by
  induction members with
  | nil => cases hm
  | cons e rest ih =>
    rw [List.map_cons, List.nodup_cons] at h
    have hnone : ∀ name, name ∉ rest.map (·.1) → membersNamed name rest = [] := by
      intro name hname
      rw [membersNamed, List.map_eq_nil_iff, List.filter_eq_nil_iff]
      intro m hm he
      exact hname (beq_iff_eq.1 he ▸ List.mem_map_of_mem hm)
    rcases List.mem_cons.1 hm with rfl | hm
    · have hrest := hnone m.1 h.1
      rw [membersNamed] at hrest ⊢
      rw [List.filter_cons_of_pos (by simp), List.map_cons, hrest]
    · have hne : ¬ (e.1 == m.1) = true := by
        intro he
        exact h.1 (beq_iff_eq.1 he ▸ List.mem_map_of_mem hm)
      rw [membersNamed, List.filter_cons, if_neg hne]
      exact ih h.2 hm

theorem objectFields?_eq_some {members found : List (String × Json)}
    {fields : List (String × Presence)} (hnames : fields.map (·.1) = found.map (·.1))
    (hfound : ∀ m ∈ found, membersNamed m.1 members = [m.2]) :
    objectFields? fields members = some (found.map fun m => some m.2) := by
  induction found generalizing fields with
  | nil =>
    rw [List.map_nil, List.map_eq_nil_iff] at hnames
    rw [hnames]
    rfl
  | cons m rest ih =>
    cases fields with
    | nil => cases hnames
    | cons field fields =>
      rw [List.map_cons, List.map_cons, List.cons.injEq] at hnames
      have hrest := ih hnames.2 fun m hm => hfound m (List.mem_cons_of_mem _ hm)
      rw [objectFields?] at hrest ⊢
      rw [List.mapM_cons, hrest, hnames.1, hfound m List.mem_cons_self]
      rfl

/-- A structure that is written with all its fields has them. -/
theorem fields?_ofMembers {fields : List (String × Presence)} {members : List (String × Json)}
    (hnames : fields.map (·.1) = members.map (·.1)) (hnodup : (members.map (·.1)).Nodup) :
    (ofMembers members).fields? fields = some (members.map fun m => some m.2) := by
  show (ofMembers members).asMembers?.bind (objectFields? fields) = _
  rw [asMembers?_ofMembers, Option.bind_some]
  exact objectFields?_eq_some hnames fun m hm => membersNamed_of_nodup hnodup hm

/-! ## Alternatives -/

theorem variant?_ofVariant (name : String) (content : Json) :
    (ofVariant name content).variant? = some (name, some content) := by
  simp only [ofVariant, ofMembers, List.map_cons, List.map_nil, variant?, decodeText?_encodeText,
    Option.map_some]

theorem unitVariant?_ofString (r : Reading) (name : String) :
    (ofString name).unitVariant? r = some name := by
  simp only [unitVariant?, ofString, variant?, decodeText?_encodeText, Option.map_some]

/-- A name is taken for what it declares. -/
theorem asName?_ofString {α : Type} (r : Reading) (ofName : String → Option α) (name : String) :
    (ofString name).asName? r ofName = ofName name := by
  rw [asName?, unitVariant?_ofString, Option.bind_some]

/-- The content of an alternative that is written with all its fields has them. -/
theorem contentFields?_ofMembers (r : Reading) {fields : List (String × Presence)}
    {members : List (String × Json)} (hnames : fields.map (·.1) = members.map (·.1))
    (hnodup : (members.map (·.1)).Nodup) :
    (ofMembers members).contentFields? r fields = some (members.map fun m => some m.2) := by
  rw [contentFields?]
  split
  · exact fields?_ofMembers hnames hnodup
  · exact fields?_ofMembers hnames hnodup

/-- The tag is written first, so the content is read as the whole is. -/
theorem tagged?_ofTagged (r : Reading) (names : List String) {tag content : String}
    (h : content ≠ tag) (name : String) (j : Json) :
    (ofTagged tag name content j).tagged? r names tag content = some (name, r, j) := by
  have hmembers := asMembers?_ofMembers [(tag, ofString name), (content, j)]
  show ((ofMembers _).asMembers? >>= _) = _
  simp [hmembers, taggedMembers?, h, unitVariant?_ofString]

/-! ## Structures that are cut -/

/-- The members of a structure are cut one by one. -/
theorem cut_ofMembers (room : Nat) (members : List (String × Json)) :
    (ofMembers members).cut (room + 1) = ofMembers (members.map fun m => (m.1, m.2.cut room)) := by
  rw [ofMembers, cut_object, ofMembers, List.map_map, List.map_map]
  rfl

/-- So are the items of an array. -/
theorem asList?_cut {α β : Type} (room : Nat) (write : α → Json) (read : Json → Option β)
    (as : List α) : ((array (as.map write)).cut (room + 1)).asList? read
      = as.mapM fun a => read ((write a).cut room) := by
  rw [cut_array, List.map_map]
  exact List.mapM_map

/-! ## Structures that can be written -/

theorem Written.mono {n m : Nat} {j : Json} (h : Written n j) (hm : n ≤ m) : Written m j := by
  induction h generalizing m with
  | null => exact .null
  | boolean b => exact .boolean b
  | number hnumber => exact .number hnumber
  | string hquotable => exact .string hquotable
  | array _ ih =>
    obtain ⟨k, rfl⟩ := Nat.exists_eq_add_of_le' hm
    rw [← Nat.add_assoc]
    exact .array fun j hj => ih j hj (Nat.le_add_left _ _)
  | object hnames _ ih =>
    obtain ⟨k, rfl⟩ := Nat.exists_eq_add_of_le' hm
    rw [← Nat.add_assoc]
    exact .object hnames fun m hm => ih m hm (Nat.le_add_left _ _)

/-- The items of a list nest no deeper than the deepest of them. -/
theorem exists_written {α : Type} {write : α → Json} {as : List α}
    (h : ∀ a ∈ as, ∃ n, Written n (write a)) : ∃ n, ∀ a ∈ as, Written n (write a) := by
  induction as with
  | nil => exact ⟨0, nofun⟩
  | cons a rest ih =>
    obtain ⟨n, hn⟩ := h a List.mem_cons_self
    obtain ⟨m, hm⟩ := ih fun a ha => h a (List.mem_cons_of_mem _ ha)
    refine ⟨max n m, fun b hb => ?_⟩
    rcases List.mem_cons.1 hb with rfl | hb
    · exact hn.mono (Nat.le_max_left n m)
    · exact (hm b hb).mono (Nat.le_max_right n m)

theorem written_ofString (n : Nat) (s : String) : Written n (ofString s) :=
  .string (quotable_encodeText s)

theorem written_ofOptionalText (n : Nat) (text : Option String) :
    Written n (.ofOption .ofString text) := by
  cases text with
  | none => exact .null
  | some s => exact written_ofString n s

theorem written_ofMembers {n : Nat} {members : List (String × Json)}
    (h : ∀ m ∈ members, Written n m.2) : Written (n + 1) (ofMembers members) := by
  refine .object ?_ ?_
  · intro m hm
    obtain ⟨member, -, rfl⟩ := List.mem_map.1 hm
    exact quotable_encodeText member.1
  · intro m hm
    obtain ⟨member, hmember, rfl⟩ := List.mem_map.1 hm
    exact h member hmember

/-- An object of one member is written if its content is. -/
theorem written_ofMember {n : Nat} (name : String) {content : Json} (h : Written n content) :
    Written (n + 1) (.ofMembers [(name, content)]) := by
  apply written_ofMembers
  intro m hm
  rw [List.mem_singleton.1 hm]
  exact h

theorem written_array {α : Type} {n : Nat} {write : α → Json} {as : List α}
    (h : ∀ a ∈ as, Written n (write a)) : Written (n + 1) (array (as.map write)) := by
  refine .array ?_
  intro j hj
  obtain ⟨a, ha, rfl⟩ := List.mem_map.1 hj
  exact h a ha

end StreamQuery.Json
