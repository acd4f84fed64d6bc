import StreamQuery.Proofs.Bytes.Frames
import StreamQuery.Proofs.Json.Partials
set_option autoImplicit false

/-!
# Samples in a buffer

A sample takes a frame of its own, and frames can stand one behind another.  The first sample of a
buffer is read together with the number of bytes that it takes, whatever follows it; so a buffer
that samples were put into is read sample by sample until nothing is left, and they come out as they
were (`buffers_read_back`).
-/

namespace StreamQuery

namespace HashSample

variable {α : Type} [JsonForm α] {s : HashSample α} {ss : List (HashSample α)} {bs : Bytes}
  {used : Nat}

/-- A sample that is read takes the bytes of one frame. -/
theorem used_of_ofBytes (h : ofBytes bs = .ok (s, used)) :
    Bytes.headerSize ≤ used ∧ used ≤ bs.length := by
  unfold ofBytes at h
  cases hframe : Bytes.unframe bs with
  | error e =>
    rw [hframe] at h
    cases h
  | ok frame =>
    obtain ⟨payload, taken⟩ := frame
    rw [hframe] at h
    simp only [bind, Except.bind] at h
    split at h
    · cases h
      exact Bytes.used_of_unframe hframe
    · cases h

/-! ## Buffers -/

/-- The samples of a buffer, read one behind another until nothing is left. -/
def ofBuffer (bs : Bytes) : Outcome (List (HashSample α)) :=
  if bs = [] then .ok []
  else
    match _hread : ofBytes bs with
    | .ok (s, used) => (ofBuffer (bs.drop used)).map (s :: ·)
    | .error e => .error e
termination_by bs.length
decreasing_by
  have hused := used_of_ofBytes _hread
  have hheader : 0 < Bytes.headerSize := by decide
  rw [List.length_drop]
  omega

/-- The buffer that samples are put into one behind another. -/
def toBuffer (ss : List (HashSample α)) : Outcome Bytes := (ss.mapM toBytes).map List.flatten

theorem ofBuffer_nil : ofBuffer ([] : Bytes) = .ok ([] : List (HashSample α)) := by
  rw [ofBuffer, if_pos rfl]

/-- What follows the first sample is read as a buffer of its own. -/
theorem ofBuffer_of_ofBytes (h : ofBytes bs = .ok (s, used)) :
    ofBuffer bs = (ofBuffer (bs.drop used)).map (s :: ·) := by
  have hne : bs ≠ [] := by
    rintro rfl
    have hused := used_of_ofBytes h
    have hheader : 0 < Bytes.headerSize := by decide
    rw [List.length_nil] at hused
    omega
  rw [ofBuffer, if_neg hne]
  split
  · rename_i hread
    rw [h] at hread
    cases hread
    rfl
  · rename_i hread
    rw [h] at hread
    cases hread

/-- The bytes of a sample are there, and are read as the sample whatever follows them. -/
def ReadsFirst (s : HashSample α) : Prop :=
  ∃ framed, s.toBytes = .ok framed ∧ ∀ rest, ofBytes (framed ++ rest) = .ok (s, framed.length)

/-- Samples that are read with whatever follows them are read out of a buffer. -/
theorem exists_toBuffer (h : ∀ s ∈ ss, s.ReadsFirst) :
    ∃ bs, toBuffer ss = .ok bs ∧ ofBuffer bs = .ok ss := by
  induction ss with
  | nil => exact ⟨[], rfl, ofBuffer_nil⟩
  | cons s rest ih =>
    obtain ⟨framed, hbytes, hread⟩ := h s List.mem_cons_self
    obtain ⟨bs, hbuffer, hrest⟩ := ih fun t ht => h t (List.mem_cons_of_mem _ ht)
    refine ⟨framed ++ bs, ?_, ?_⟩
    · unfold toBuffer at hbuffer ⊢
      rw [List.mapM_cons, hbytes]
      cases hpieces : rest.mapM toBytes with
      | error e =>
        rw [hpieces] at hbuffer
        cases hbuffer
      | ok pieces =>
        rw [hpieces] at hbuffer
        cases hbuffer
        rfl
    · rw [ofBuffer_of_ofBytes (hread bs), List.drop_left, hrest]
      rfl

/-! ## Samples of hashes and of groups -/

/-- A sample whose capacity is a word, and whose text can be counted in the header of a frame. -/
structure Portable (s : HashSample α) : Prop where
  capacity_lt : s.capacity < 2 ^ 64
  payload_lt : s.toJson.bytes.length < 2 ^ 32

/-- A sample whose values are read back is read with whatever follows it. -/
theorem Portable.readsFirst {depth : Nat} (h : s.Portable)
    (hcarried : ∀ a ∈ s.values, Carried depth a) (hdepth : depth + 2 ≤ Json.depthLimit) :
    s.ReadsFirst := by
  obtain ⟨framed, hbytes⟩ := Bytes.exists_frame_iff.2 h.payload_lt
  refine ⟨framed, hbytes, ofBytes_toBytes hbytes h.capacity_lt ?_ hdepth⟩
  exact fun e he => hcarried e.2 (List.mem_map_of_mem he)

/-- Samples of hashes, and samples of groups whose keys and running values are NULL, truth values,
integers and texts, are read as they were from their own bytes, whatever follows them, and from a
buffer that they were put into. -/
theorem buffers_read_back {hashes : List (HashSample Unit)} {groups : List (HashSample Group)}
    (hhashes : ∀ s ∈ hashes, s.Portable)
    (hgroups : ∀ s ∈ groups, s.Portable ∧ ∀ group ∈ s.values, group.IsExact) :
    ((∀ s ∈ hashes, s.ReadsFirst) ∧ ∃ bs, toBuffer hashes = .ok bs ∧ ofBuffer bs = .ok hashes) ∧
      (∀ s ∈ groups, s.ReadsFirst) ∧
        ∃ bs, toBuffer groups = .ok bs ∧ ofBuffer bs = .ok groups := by
  have hunit : ∀ s ∈ hashes, s.ReadsFirst := by
    intro s hs
    have hcarried : ∀ a ∈ s.values, Carried 0 a := fun _ _ => ⟨.null, rfl⟩
    exact (hhashes s hs).readsFirst hcarried (by decide)
  have hgroup : ∀ s ∈ groups, s.ReadsFirst := fun s hs =>
    (hgroups s hs).1.readsFirst (fun g hg => ((hgroups s hs).2 g hg).carried) (by decide)
  exact ⟨⟨hunit, exists_toBuffer hunit⟩, hgroup, exists_toBuffer hgroup⟩

/-- Two samples of hashes, one of which dropped some, up to the largest words. -/
def farHashes : List (HashSample Unit) :=
  [⟨2 ^ 64 - 1, noBound - 1, .ofList [(0, ()), (noBound - 2, ())]⟩, .new 0]

/-- A group with a key of every kind that is carried, and with an average that has no name. -/
def oddGroup : Group :=
  ⟨[.null, .boolean true, .integer (-5), .long Int64.minValue, .string "a\"\\\n\x00é"],
    ⟨[⟨⟨.avg, some "p\tq", none⟩, .long Int64.maxValue⟩, ⟨⟨.count, none, some ""⟩, .null⟩]⟩⟩

theorem buffers_read_back_oddGroup :
    (∀ s ∈ farHashes, s.Portable) ∧
      (∃ bs, toBuffer farHashes = .ok bs ∧ ofBuffer bs = .ok farHashes) ∧
      ∃ bs, toBuffer [⟨16, noBound, .ofList [(7, oddGroup)]⟩, .new 1] = .ok bs ∧
        ofBuffer bs = .ok [⟨16, noBound, .ofList [(7, oddGroup)]⟩, .new 1] := by
  have hhashes : ∀ s ∈ farHashes, s.Portable := by
    intro s hs
    simp only [farHashes, List.mem_cons, List.not_mem_nil, or_false] at hs
    rcases hs with rfl | rfl
    · exact ⟨by decide, by decide +kernel⟩
    · exact ⟨by decide, by decide +kernel⟩
  have hgroups : ∀ s ∈ [(⟨16, noBound, .ofList [(7, oddGroup)]⟩ : HashSample Group), .new 1],
      s.Portable ∧ ∀ group ∈ s.values, group.IsExact := by
    intro s hs
    simp only [List.mem_cons, List.not_mem_nil, or_false] at hs
    rcases hs with rfl | rfl
    · refine ⟨⟨by decide, by decide +kernel⟩, fun group hgroup => ?_⟩
      have hvalues : group ∈ [oddGroup] := hgroup
      rw [List.mem_singleton.1 hvalues]
      simp [oddGroup, Group.IsExact, Summary.IsExact, Value.IsExact]
    · exact ⟨⟨by decide, by decide +kernel⟩, nofun⟩
  have hread := buffers_read_back hhashes hgroups
  exact ⟨hhashes, hread.1.2, hread.2.2⟩

end HashSample

end StreamQuery
