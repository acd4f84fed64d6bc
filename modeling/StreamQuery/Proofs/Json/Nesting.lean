import StreamQuery.Proofs.Json.Structures
set_option autoImplicit false

/-!
# Nesting

Arrays and objects stand inside one another to some depth.  What is written and needs every part of
it to be read is read back exactly if there is room for that depth (`Json.ReadsBack`); with too
little room it is refused, and never taken for something else.  That holds for a structure or a list
if it holds for its parts.
-/

namespace StreamQuery.Json

/-! ## Depth -/

mutual

/-- How many arrays and objects stand inside one another. -/
def depth : Json → Nat
  | array items => depthOfItems items + 1
  | object members => depthOfMembers members + 1
  | null | boolean _ | number _ | string _ | tooDeep => 0

/-- The depth of the deepest item. -/
def depthOfItems : List Json → Nat
  | [] => 0
  | j :: rest => max j.depth (depthOfItems rest)

/-- The depth of the deepest member. -/
def depthOfMembers : List (Bytes × Json) → Nat
  | [] => 0
  | (_, j) :: rest => max j.depth (depthOfMembers rest)

end

theorem depthOfItems_le_iff {items : List Json} {n : Nat} :
    depthOfItems items ≤ n ↔ ∀ j ∈ items, j.depth ≤ n := by
  induction items with
  | nil => simp [depthOfItems]
  | cons j rest ih => rw [depthOfItems, Nat.max_le, ih, List.forall_mem_cons]

theorem depthOfMembers_le_iff {members : List (Bytes × Json)} {n : Nat} :
    depthOfMembers members ≤ n ↔ ∀ m ∈ members, m.2.depth ≤ n := by
  induction members with
  | nil => simp [depthOfMembers]
  | cons m rest ih => rw [depthOfMembers, Nat.max_le, ih, List.forall_mem_cons]

theorem depth_array_le_iff {items : List Json} {n : Nat} :
    (array items).depth ≤ n + 1 ↔ ∀ j ∈ items, j.depth ≤ n := by
  rw [depth, Nat.add_le_add_iff_right, depthOfItems_le_iff]

theorem depth_ofMembers_le_iff {members : List (String × Json)} {n : Nat} :
    (ofMembers members).depth ≤ n + 1 ↔ ∀ m ∈ members, m.2.depth ≤ n := by
  rw [ofMembers, depth, Nat.add_le_add_iff_right, depthOfMembers_le_iff, List.forall_mem_map]

theorem Written.depth_le {n : Nat} {j : Json} (h : Written n j) : j.depth ≤ n := by
  induction h with
  | array _ ih => exact depth_array_le_iff.2 ih
  | object _ _ ih =>
    rw [depth, Nat.add_le_add_iff_right, depthOfMembers_le_iff]
    exact ih
  | _ => exact Nat.zero_le _

/-! ## Values without parts -/

theorem depth_ofString (s : String) : (ofString s).depth = 0 := rfl

theorem cut_ofString (room : Nat) (s : String) : (ofString s).cut room = ofString s := rfl

theorem depth_boolean (b : Bool) : (boolean b).depth = 0 := rfl

theorem cut_boolean (room : Nat) (b : Bool) : (boolean b).cut room = boolean b := rfl

/-! ## Reading where there is room -/

/-- A value that is written for `a`, and read as `a` where there is room for all of it, and nowhere
else. -/
structure ReadsBack {α : Type} (read : Json → Option α) (j : Json) (a : α) : Prop where
  written : ∃ n, Written n j
  read_cut : ∀ room, read (j.cut room) = if j.depth ≤ room then some a else none

namespace ReadsBack

variable {α : Type} {read : Json → Option α} {j : Json} {a : α}

/-- The bytes of a value are read as what it is written for, exactly if it does not nest too
deep. -/
theorem parseBytes_bind (h : ReadsBack read j a) :
    (parseBytes j.bytes).bind read = if j.depth ≤ depthLimit then some a else none := by
  obtain ⟨n, hn⟩ := h.written
  rw [parseBytes_bytes_cut hn, Option.bind_some, h.read_cut]

theorem parseBytes_bind_of_depth_le (h : ReadsBack read j a) (hdepth : j.depth ≤ depthLimit) :
    (parseBytes j.bytes).bind read = some a := by
  rw [h.parseBytes_bind, if_pos hdepth]

/-- A value without parts needs no room. -/
theorem leaf (hj : Written 0 j) (hread : read j = some a) : ReadsBack read j a where
  written := ⟨0, hj⟩
  read_cut room := by
    rw [hj.cut_eq (Nat.zero_le room), hread,
      if_pos (Nat.le_trans hj.depth_le (Nat.zero_le room))]

/-- A structure needs room for its parts and for itself. -/
theorem members {members : List (String × Json)} (hwritten : ∀ m ∈ members, ∃ n, Written n m.2)
    (hdeep : read tooDeep = none)
    (hread : ∀ room, read (ofMembers (members.map fun m => (m.1, m.2.cut room)))
      = if ∀ m ∈ members, m.2.depth ≤ room then some a else none) :
    ReadsBack read (ofMembers members) a where
  written := by
    obtain ⟨n, hn⟩ := exists_written hwritten
    exact ⟨n + 1, written_ofMembers hn⟩
  read_cut room := by
    cases room with
    | zero =>
      rw [if_neg (by rw [ofMembers, depth]; omega)]
      exact hdeep
    | succ room =>
      rw [cut_ofMembers, hread]
      exact if_congr depth_ofMembers_le_iff.symm rfl rfl

/-- An alternative is read if its content is. -/
theorem variant {name : String} (hdeep : read tooDeep = none)
    (h : ReadsBack (fun content => read (ofVariant name content)) j a) :
    ReadsBack read (ofVariant name j) a := by
  refine members (List.forall_mem_singleton.2 h.written) hdeep fun room => ?_
  simp only [List.forall_mem_singleton]
  exact h.read_cut room

/-- So is an alternative that is declared by a tag. -/
theorem tagged {tag name content : String} (hdeep : read tooDeep = none)
    (h : ReadsBack (fun spec => read (ofTagged tag name content spec)) j a) :
    ReadsBack read (ofTagged tag name content j) a := by
  refine members ?_ hdeep fun room => ?_
  · exact List.forall_mem_cons.2 ⟨⟨0, written_ofString 0 name⟩,
      List.forall_mem_singleton.2 h.written⟩
  · have hname : (ofString name).depth ≤ room := Nat.zero_le room
    simp only [List.forall_mem_cons, List.not_mem_nil, false_implies, implies_true, and_true, hname,
      true_and]
    exact h.read_cut room

end ReadsBack

theorem mapM_ite {α : Type} {p : α → Prop} [DecidablePred p] (as : List α) :
    (as.mapM fun a => if p a then some a else none) = if ∀ a ∈ as, p a then some as else none := by
  split
  · rename_i h
    exact mapM_eq_some_self fun a ha => if_pos (h a ha)
  · rename_i h
    rw [← Option.not_isSome_iff_eq_none, isSome_mapM_iff]
    exact fun hall => h fun a ha => by simpa using hall a ha

/-- A list is read if all its items are. -/
theorem ReadsBack.list {α : Type} {write : α → Json} {read : Json → Option α} {as : List α}
    (h : ∀ a ∈ as, ReadsBack read (write a) a) :
    ReadsBack (asList? read) (array (as.map write)) as where
  written := by
    obtain ⟨n, hn⟩ := exists_written fun a ha => (h a ha).written
    exact ⟨n + 1, written_array hn⟩
  read_cut room := by
    cases room with
    | zero => rfl
    | succ room =>
      rw [asList?_cut, mapM_congr fun a ha => (h a ha).read_cut room, mapM_ite]
      refine if_congr ?_ rfl rfl
      rw [depth_array_le_iff, List.forall_mem_map]

end StreamQuery.Json
