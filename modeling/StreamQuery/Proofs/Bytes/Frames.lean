import StreamQuery.Bytes.Frame
import StreamQuery.Proofs.Outcomes
set_option autoImplicit false

/-!
# Frames one behind another

Unframing inverts framing both ways.  What follows a frame does not matter to its reader, and what a
reader takes is the one frame of the payload that it answers.  So frames that were put one behind
another come apart in one way only: the payloads of a byte string are those whose frames it is made
of (`Bytes.unframeAll_eq_ok_iff`).
-/

namespace StreamQuery.Bytes

variable {bs payload : Bytes} {payloads : List Bytes} {used : Nat} {e : QueryError}

/-! ## One frame -/

/-- As many bytes as there are cannot tell a larger number. -/
theorem toNat_lt (bs : Bytes) : toNat bs < 256 ^ bs.length := by
  have h := toNat_ofNat bs.length (toNat bs)
  rw [ofNat_toNat] at h
  rw [h]
  exact Nat.mod_lt _ (Nat.pow_pos (by decide))

/-- The number of bytes that a frame takes by its own account. -/
def announced (bs : Bytes) : Nat := headerSize + toNat (bs.take headerSize)

/-- A frame is read if it is there as a whole. -/
theorem unframe_eq_ok_iff : unframe bs = .ok (payload, used) ↔
    headerSize ≤ bs.length ∧ announced bs ≤ bs.length ∧
      payload = (bs.take (announced bs)).drop headerSize ∧ used = announced bs := by
  unfold unframe
  split
  · rename_i hheader
    exact ⟨nofun, fun h => absurd h.1 (Nat.not_le.2 hheader)⟩
  · rename_i hheader
    simp only [← announced.eq_def]
    split
    · rename_i hpayload
      exact ⟨nofun, fun h => absurd h.2.1 (Nat.not_le.2 hpayload)⟩
    · rename_i hpayload
      rw [Except.ok.injEq, Prod.mk.injEq, eq_comm (a := payload), eq_comm (a := used)]
      exact ⟨fun h => ⟨Nat.not_lt.1 hheader, Nat.not_lt.1 hpayload, h⟩, fun h => h.2.2⟩

/-- It is refused if it ends in its header, or in its payload. -/
theorem unframe_eq_error_iff : unframe bs = .error e ↔
    bs.length < headerSize ∧ e = .sketch .truncatedHeader ∨
      headerSize ≤ bs.length ∧ bs.length < announced bs ∧
        e = .sketch (.truncatedPayload (announced bs) bs.length) := by
  unfold unframe
  split
  · rename_i hheader
    simp [hheader, Nat.not_le.2 hheader, eq_comm]
  · rename_i hheader
    simp only [← announced.eq_def]
    split
    · rename_i hpayload
      simp [hheader, Nat.not_lt.1 hheader, hpayload, eq_comm]
    · rename_i hpayload
      simp [hheader, hpayload]

/-- A frame that is read takes its header and its payload, and no more than there is. -/
theorem used_of_unframe (h : unframe bs = .ok (payload, used)) :
    headerSize ≤ used ∧ used ≤ bs.length := by
  obtain ⟨-, hfits, -, rfl⟩ := unframe_eq_ok_iff.1 h
  exact ⟨Nat.le_add_right _ _, hfits⟩

/-- What a reader takes is the frame of the payload that it answers. -/
theorem frame_of_unframe (h : unframe bs = .ok (payload, used)) :
    frame payload = .ok (bs.take used) := by
  obtain ⟨hheader, hfits, rfl, rfl⟩ := unframe_eq_ok_iff.1 h
  have hannounced : headerSize ≤ announced bs := Nat.le_add_right _ _
  have hsize : (bs.take headerSize).length = headerSize := by
    rw [List.length_take, Nat.min_eq_left hheader]
  have hlength :
      ((bs.take (announced bs)).drop headerSize).length = toNat (bs.take headerSize) := by
    rw [List.length_drop, List.length_take, Nat.min_eq_left hfits]
    exact Nat.add_sub_cancel_left _ _
  have hlt : toNat (bs.take headerSize) < 256 ^ headerSize := by
    have := toNat_lt (bs.take headerSize)
    rwa [hsize] at this
  have hword : ofNat headerSize (toNat (bs.take headerSize)) = bs.take headerSize := by
    have := ofNat_toNat (bs.take headerSize)
    rwa [hsize] at this
  rw [frame, hlength, if_pos hlt, hword]
  congr 1
  calc bs.take headerSize ++ (bs.take (announced bs)).drop headerSize
      = (bs.take (announced bs)).take headerSize ++ (bs.take (announced bs)).drop headerSize := by
        rw [List.take_take, Nat.min_eq_left hannounced]
    _ = bs.take (announced bs) := List.take_append_drop _ _

/-! ## Frames one behind another -/

/-- The payloads of a byte string, taken off one after another until nothing is left. -/
def unframeAll (bs : Bytes) : Outcome (List Bytes) :=
  if bs = [] then .ok []
  else
    match _hread : unframe bs with
    | .ok (payload, used) => (unframeAll (bs.drop used)).map (payload :: ·)
    | .error e => .error e
termination_by bs.length
decreasing_by
  have hused := used_of_unframe _hread
  have hheader : 0 < headerSize := by decide
  rw [List.length_drop]
  omega

theorem unframeAll_nil : unframeAll [] = .ok [] := by
  rw [unframeAll, if_pos rfl]

/-- There is a first payload if it is the payload of the first frame, and the others are those of
what follows. -/
theorem unframeAll_eq_ok_cons_iff : unframeAll bs = .ok (payload :: payloads) ↔
    ∃ used, unframe bs = .ok (payload, used) ∧ unframeAll (bs.drop used) = .ok payloads := by
  rw [unframeAll]
  split
  · rename_i hnil
    subst hnil
    exact ⟨nofun, fun ⟨_, h, _⟩ => nomatch h⟩
  · split
    · rename_i first used hread
      rw [hread]
      cases hrest : unframeAll (bs.drop used) with
      | error e =>
        refine ⟨nofun, fun ⟨_, hused, h⟩ => ?_⟩
        cases hused
        rw [hrest] at h
        cases h
      | ok others =>
        constructor
        · intro h
          cases h
          exact ⟨used, rfl, hrest⟩
        · rintro ⟨_, hused, h⟩
          cases hused
          rw [hrest] at h
          cases h
          rfl
    · rename_i hread
      exact ⟨nofun, fun ⟨_, h, _⟩ => nomatch hread.symm.trans h⟩

theorem unframeAll_eq_ok_nil_iff : unframeAll bs = .ok [] ↔ bs = [] := by
  constructor
  · intro h
    by_contra hne
    rw [unframeAll, if_neg hne] at h
    split at h
    · cases hrest : unframeAll (bs.drop _) with
      | error e => rw [hrest] at h; cases h
      | ok others => rw [hrest] at h; cases h
    · cases h
  · rintro rfl
    exact unframeAll_nil

/-- The payloads of a byte string are those whose frames it is made of. -/
theorem unframeAll_eq_ok_iff :
    unframeAll bs = .ok payloads ↔ (payloads.mapM frame).map List.flatten = .ok bs := by
  induction payloads generalizing bs with
  | nil =>
    rw [unframeAll_eq_ok_nil_iff]
    exact ⟨fun h => h ▸ rfl, fun h => (Except.ok.inj h).symm⟩
  | cons payload rest ih =>
    simp only [unframeAll_eq_ok_cons_iff, ih]
    constructor
    · rintro ⟨used, hread, hrest⟩
      obtain ⟨frames, hframes, hflatten⟩ := Outcome.exists_of_map_eq_ok hrest
      rw [List.mapM_cons, frame_of_unframe hread, hframes]
      show Except.ok (bs.take used ++ frames.flatten) = _
      rw [hflatten, List.take_append_drop]
    · intro h
      obtain ⟨_, hframes, rfl⟩ := Outcome.exists_of_map_eq_ok h
      obtain ⟨framed, others, hframed, hothers, rfl⟩ :=
        List.forall₂_cons_left_iff.1 (mapM_eq_ok_iff.1 hframes)
      refine ⟨framed.length, unframe_frame_append hframed _, ?_⟩
      rw [List.flatten_cons, List.drop_left, mapM_eq_ok_iff.2 hothers]
      rfl

/-- Payloads of fewer than `2 ^ 32` bytes each come out of their frames as they were put in, one
after another until nothing is left; a frame that is read takes no more than there is, and is the
frame of its payload; and nothing is read exactly if there is less than a header, or less than the
header announces. -/
theorem unframe_inverts_frame :
    (∀ payloads : List Bytes, (∀ payload ∈ payloads, payload.length < 2 ^ 32) →
      ∃ frames, payloads.mapM frame = .ok frames ∧ unframeAll frames.flatten = .ok payloads) ∧
    (∀ (bs payload : Bytes) (used : Nat), unframe bs = .ok (payload, used) →
      4 ≤ used ∧ used ≤ bs.length ∧ frame payload = .ok (bs.take used)) ∧
    ∀ bs : Bytes, (∃ e, unframe bs = .error e) ↔
      bs.length < 4 ∨ bs.length < 4 + toNat (bs.take 4) := by
  refine ⟨?_, ?_, ?_⟩
  · intro payloads hshort
    have hframes : ∃ frames, payloads.mapM frame = .ok frames := by
      simp only [mapM_eq_ok_iff, exists_forall₂_iff, exists_frame_iff]
      exact hshort
    obtain ⟨frames, hframes⟩ := hframes
    exact ⟨frames, hframes, unframeAll_eq_ok_iff.2 (by rw [hframes]; rfl)⟩
  · intro bs payload used hread
    obtain ⟨hheader, hfits⟩ := used_of_unframe hread
    exact ⟨hheader, hfits, frame_of_unframe hread⟩
  · intro bs
    simp only [unframe_eq_error_iff]
    constructor
    · rintro ⟨_, ⟨hheader, rfl⟩ | ⟨-, hpayload, rfl⟩⟩
      · exact .inl hheader
      · exact .inr hpayload
    · intro hshort
      by_cases hheader : bs.length < headerSize
      · exact ⟨_, .inl ⟨hheader, rfl⟩⟩
      · have hpayload : bs.length < announced bs := hshort.resolve_left hheader
        exact ⟨_, .inr ⟨Nat.not_lt.1 hheader, hpayload, rfl⟩⟩

/-- An empty payload, and one that looks like a frame that is cut off. -/
def awkwardPayloads : List Bytes := [[], [9, 0, 0, 0, 7]]

theorem unframe_inverts_frame_awkward :
    (∀ payload ∈ awkwardPayloads, payload.length < 2 ^ 32) ∧
      (∃ frames, awkwardPayloads.mapM frame = .ok frames ∧
        unframeAll frames.flatten = .ok awkwardPayloads) ∧
      unframe [5, 0, 0, 0, 9, 0, 0, 0, 7, 1, 0] = .ok ([9, 0, 0, 0, 7], 9) ∧
      frame [9, 0, 0, 0, 7] = .ok [5, 0, 0, 0, 9, 0, 0, 0, 7] := by
  obtain ⟨hall, hfirst, -⟩ := unframe_inverts_frame
  have hshort : ∀ payload ∈ awkwardPayloads, payload.length < 2 ^ 32 := by decide
  have hread : unframe [5, 0, 0, 0, 9, 0, 0, 0, 7, 1, 0] = .ok ([9, 0, 0, 0, 7], 9) := rfl
  obtain ⟨-, -, hframe⟩ := hfirst _ _ _ hread
  exact ⟨hshort, hall _ hshort, hread, hframe⟩

end StreamQuery.Bytes
