import StreamQuery.Bytes.LittleEndian
import StreamQuery.Error
set_option autoImplicit false

/-!
# Frames

A frame is a payload behind its length in four bytes, least significant first.  Frames
may follow one another: unframing takes the first one off and says how many bytes it
took.
-/

namespace StreamQuery.Bytes

/-- The number of bytes of the length. -/
def headerSize : Nat := 4

/-- Puts a payload behind its length. -/
def frame (payload : Bytes) : Outcome Bytes :=
  if payload.length < 256 ^ headerSize then .ok (ofNat headerSize payload.length ++ payload)
  else .error (.sketch (.payloadTooLarge payload.length))

/-- The payload of the first frame, and the number of bytes that the frame takes. -/
def unframe (bs : Bytes) : Outcome (Bytes × Nat) :=
  if bs.length < headerSize then .error (.sketch .truncatedHeader)
  else
    let used := headerSize + toNat (bs.take headerSize)
    if bs.length < used then .error (.sketch (.truncatedPayload used bs.length))
    else .ok ((bs.take used).drop headerSize, used)

/-- A payload has a frame exactly if its length can be told in the bytes of the length. -/
theorem exists_frame_iff {payload : Bytes} :
    (∃ framed, frame payload = .ok framed) ↔ payload.length < 256 ^ headerSize := by
  unfold frame
  split
  · rename_i hlt
    exact ⟨fun _ => hlt, fun _ => ⟨_, rfl⟩⟩
  · rename_i hlt
    exact ⟨nofun, fun h => absurd h hlt⟩

/-- The first frame of a byte string that starts with one is that frame. -/
theorem unframe_frame_append {payload framed : Bytes} (h : frame payload = .ok framed)
    (rest : Bytes) : unframe (framed ++ rest) = .ok (payload, framed.length) := by
  unfold frame at h
  split at h
  · rename_i hlt
    cases h
    have htake : ((ofNat headerSize payload.length ++ payload) ++ rest).take headerSize
        = ofNat headerSize payload.length := by
      rw [List.append_assoc, List.take_append_of_le_length (by simp)]
      exact List.take_of_length_le (by simp)
    have hused : headerSize + toNat (ofNat headerSize payload.length)
        = (ofNat headerSize payload.length ++ payload).length := by
      rw [toNat_ofNat, Nat.mod_eq_of_lt hlt, List.length_append, length_ofNat]
    unfold unframe
    rw [htake, hused]
    rw [if_neg (by simp [List.length_append]), if_neg (by simp [List.length_append]),
      List.take_left, List.drop_left' (length_ofNat headerSize payload.length)]
  · cases h

end StreamQuery.Bytes
