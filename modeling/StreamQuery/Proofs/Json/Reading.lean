import StreamQuery.Proofs.Json.Scanning
set_option autoImplicit false

/-!
# Reading back what was written

The reader takes the tokens of a value as one: where a value may come, it has delivered the
value after its last token, whatever is open around it.  Only what nests too deep is passed over,
so the bytes of a value read back to the value but for its deepest parts.
-/

namespace StreamQuery.Json

open Reader

/-! ## Parts that are too deep -/

mutual

/-- A value as it is read where there is room for so many containers inside one another. -/
def cut (room : Nat) : Json → Json
  | array items => if room = 0 then tooDeep else array (cutItems (room - 1) items)
  | object members => if room = 0 then tooDeep else object (cutMembers (room - 1) members)
  | null => null
  | boolean b => boolean b
  | number lexeme => number lexeme
  | string lexeme => string lexeme
  | tooDeep => tooDeep

/-- The items of an array as they are read. -/
def cutItems (room : Nat) : List Json → List Json
  | [] => []
  | j :: rest => cut room j :: cutItems room rest

/-- The members of an object as they are read. -/
def cutMembers (room : Nat) : List (Bytes × Json) → List (Bytes × Json)
  | [] => []
  | (name, j) :: rest => (name, cut room j) :: cutMembers room rest

end

theorem cutItems_eq_map (room : Nat) (items : List Json) :
    cutItems room items = items.map (cut room) := by
  induction items with
  | nil => rfl
  | cons j rest ih => rw [cutItems, ih, List.map_cons]

theorem cutMembers_eq_map (room : Nat) (members : List (Bytes × Json)) :
    cutMembers room members = members.map fun m => (m.1, m.2.cut room) := by
  induction members with
  | nil => rfl
  | cons m rest ih => rw [cutMembers, ih, List.map_cons]

theorem cut_array (room : Nat) (items : List Json) :
    (array items).cut (room + 1) = array (items.map (cut room)) := by
  rw [cut, if_neg (Nat.succ_ne_zero room), cutItems_eq_map]
  rfl

theorem cut_object (room : Nat) (members : List (Bytes × Json)) :
    (object members).cut (room + 1) = object (members.map fun m => (m.1, m.2.cut room)) := by
  rw [cut, if_neg (Nat.succ_ne_zero room), cutMembers_eq_map]
  rfl

/-! ## Tokens -/

/-- The first token of a value ends no array. -/
theorem tokens_head (j : Json) : ∃ t rest, j.tokens = t :: rest ∧ t ≠ .closeBracket := by
  cases j with
  | array items =>
    rw [tokens]
    exact ⟨_, _, rfl, by rintro ⟨⟩⟩
  | object members =>
    rw [tokens]
    exact ⟨_, _, rfl, by rintro ⟨⟩⟩
  | _ =>
    rw [tokens]
    exact ⟨_, _, rfl, by rintro ⟨⟩⟩

/-- The room that is left inside some containers. -/
def roomIn (frames : List Frame) : Nat := depthLimit - frames.length

/-- A value that is read as one wherever a value may come. -/
def ReadsAsOne (j : Json) : Prop :=
  ∀ (frames : List Frame) (rest : List Token),
    (j.tokens ++ rest).foldlM step ⟨frames, .value⟩
      = (deliver frames (j.cut (roomIn frames))).bind fun r => rest.foldlM step r

/-- After an opening bracket a value is taken as anywhere else. -/
theorem foldlM_valueOrEnd (frames : List Frame) (j : Json) (rest : List Token) :
    (j.tokens ++ rest).foldlM step ⟨frames, .valueOrEnd⟩
      = (j.tokens ++ rest).foldlM step ⟨frames, .value⟩ := by
  obtain ⟨t, more, htokens, ht⟩ := tokens_head j
  rw [htokens]
  have hstep : step ⟨frames, .valueOrEnd⟩ t = step ⟨frames, .value⟩ t := by
    cases t <;> first | rfl | exact absurd rfl ht
  simp only [List.cons_append, List.foldlM_cons, hstep]

/-- The items that remain are taken into the array, which is closed then. -/
theorem foldlM_itemTokens {items : List Json} (h : ∀ j ∈ items, ReadsAsOne j)
    (outer : List Frame) (seen : List Json) (rest : List Token) :
    (itemTokens false items ++ .closeBracket :: rest).foldlM step
        ⟨.array seen :: outer, .commaOrEnd⟩
      = (deliverContainer outer
          (.array (seen.reverse ++ items.map (cut (roomIn outer - 1))))).bind
          fun r => rest.foldlM step r := by
  induction items generalizing seen with
  | nil =>
    rw [List.map_nil, List.append_nil]
    rfl
  | cons j more ih =>
    have hj := h j List.mem_cons_self (.array seen :: outer)
      (itemTokens false more ++ .closeBracket :: rest)
    have hcomma : step ⟨.array seen :: outer, .commaOrEnd⟩ .comma
        = some ⟨.array seen :: outer, .value⟩ := rfl
    have hseen : seen.reverse ++ (j :: more).map (cut (roomIn outer - 1))
        = (j.cut (roomIn outer - 1) :: seen).reverse ++ more.map (cut (roomIn outer - 1)) := by
      rw [List.reverse_cons, List.append_assoc]
      rfl
    rw [hseen, ← ih (fun j hj => h j (List.mem_cons_of_mem _ hj))]
    simp only [itemTokens, Bool.false_eq_true, if_false, List.cons_append, List.nil_append,
      List.append_assoc, List.foldlM_cons, hcomma]
    exact hj

/-- The members that remain are taken into the object, which is closed then. -/
theorem foldlM_memberTokens {members : List (Bytes × Json)} (h : ∀ m ∈ members, ReadsAsOne m.2)
    (outer : List Frame) (seen : List (Bytes × Json)) (rest : List Token) :
    (memberTokens false members ++ .closeBrace :: rest).foldlM step
        ⟨.object seen :: outer, .commaOrEnd⟩
      = (deliverContainer outer (.object (seen.reverse ++
          members.map fun m => (m.1, m.2.cut (roomIn outer - 1))))).bind
          fun r => rest.foldlM step r := by
  induction members generalizing seen with
  | nil =>
    rw [List.map_nil, List.append_nil]
    rfl
  | cons m more ih =>
    obtain ⟨name, j⟩ := m
    have hj := h (name, j) List.mem_cons_self (.member seen name :: outer)
      (memberTokens false more ++ .closeBrace :: rest)
    have hname : [Token.comma, .string name, .colon].foldlM step
        ⟨.object seen :: outer, .commaOrEnd⟩ = some ⟨.member seen name :: outer, .value⟩ := rfl
    have hseen : seen.reverse ++ (((name, j) :: more).map
          fun m => (m.1, m.2.cut (roomIn outer - 1)))
        = ((name, j.cut (roomIn outer - 1)) :: seen).reverse
          ++ more.map fun m => (m.1, m.2.cut (roomIn outer - 1)) := by
      rw [List.reverse_cons, List.append_assoc]
      rfl
    have hsplit : memberTokens false ((name, j) :: more) ++ .closeBrace :: rest
        = [Token.comma, .string name, .colon]
          ++ (j.tokens ++ (memberTokens false more ++ .closeBrace :: rest)) := by
      simp only [memberTokens, Bool.false_eq_true, if_false, List.cons_append, List.nil_append,
        List.append_assoc]
    rw [hseen, ← ih (fun m hm => h m (List.mem_cons_of_mem _ hm)), hsplit, List.foldlM_append,
      hname]
    exact hj

/-! ## Values -/

theorem readsAsOne_array {items : List Json} (h : ∀ j ∈ items, ReadsAsOne j) :
    ReadsAsOne (array items) := by
  intro frames rest
  have hdeliver : deliverContainer frames (array (items.map (cut (roomIn frames - 1))))
      = deliver frames ((array items).cut (roomIn frames)) := by
    rw [deliverContainer, cut, cutItems_eq_map]
    congr 1
    split
    · rw [if_neg (by simp only [roomIn]; omega)]
    · rw [if_pos (by simp only [roomIn]; omega)]
  have hopen : step ⟨frames, .value⟩ .openBracket = some ⟨.array [] :: frames, .valueOrEnd⟩ := rfl
  rw [← hdeliver]
  cases items with
  | nil => rfl
  | cons j more =>
    have hj := h j List.mem_cons_self (.array [] :: frames)
      (itemTokens false more ++ .closeBracket :: rest)
    have hmore := foldlM_itemTokens (fun j hj => h j (List.mem_cons_of_mem _ hj)) frames
      [j.cut (roomIn frames - 1)] rest
    have hsplit : (array (j :: more)).tokens ++ rest
        = .openBracket :: (j.tokens ++ (itemTokens false more ++ .closeBracket :: rest)) := by
      simp only [tokens, itemTokens, if_true, List.cons_append, List.nil_append,
        List.append_assoc]
    rw [hsplit, List.foldlM_cons, hopen]
    show (j.tokens ++ _).foldlM step ⟨.array [] :: frames, .valueOrEnd⟩ = _
    rw [foldlM_valueOrEnd, hj]
    exact hmore

theorem readsAsOne_object {members : List (Bytes × Json)} (h : ∀ m ∈ members, ReadsAsOne m.2) :
    ReadsAsOne (object members) := by
  intro frames rest
  have hdeliver : deliverContainer frames
        (object (members.map fun m => (m.1, m.2.cut (roomIn frames - 1))))
      = deliver frames ((object members).cut (roomIn frames)) := by
    rw [deliverContainer, cut, cutMembers_eq_map]
    congr 1
    split
    · rw [if_neg (by simp only [roomIn]; omega)]
    · rw [if_pos (by simp only [roomIn]; omega)]
  rw [← hdeliver]
  cases members with
  | nil => rfl
  | cons m more =>
    obtain ⟨name, j⟩ := m
    have hj := h (name, j) List.mem_cons_self (.member [] name :: frames)
      (memberTokens false more ++ .closeBrace :: rest)
    have hmore := foldlM_memberTokens (fun m hm => h m (List.mem_cons_of_mem _ hm)) frames
      [(name, j.cut (roomIn frames - 1))] rest
    have hname : [Token.openBrace, .string name, .colon].foldlM step ⟨frames, .value⟩
        = some ⟨.member [] name :: frames, .value⟩ := rfl
    have hsplit : (object ((name, j) :: more)).tokens ++ rest
        = [Token.openBrace, .string name, .colon]
          ++ (j.tokens ++ (memberTokens false more ++ .closeBrace :: rest)) := by
      simp only [tokens, memberTokens, if_true, List.cons_append, List.nil_append,
        List.append_assoc]
    rw [hsplit, List.foldlM_append, hname]
    show (j.tokens ++ _).foldlM step ⟨.member [] name :: frames, .value⟩ = _
    rw [hj]
    exact hmore

/-- A value that can be written is read as one. -/
theorem Written.readsAsOne {n : Nat} {j : Json} (h : Written n j) : ReadsAsOne j := by
  induction h with
  | null => exact fun _ _ => rfl
  | boolean b => exact fun _ _ => rfl
  | number _ => exact fun _ _ => rfl
  | string _ => exact fun _ _ => rfl
  | array _ ih => exact readsAsOne_array ih
  | object _ _ ih => exact readsAsOne_object ih

/-- The bytes of a value read back to the value, but for the parts that are too deep. -/
theorem parseBytes_bytes_cut {n : Nat} {j : Json} (h : Written n j) :
    parseBytes j.bytes = some (j.cut depthLimit) := by
  have hread := h.readsAsOne [] []
  rw [List.append_nil] at hread
  rw [parseBytes, scan_bytes h, Option.bind_some, ofTokens?, hread]
  rfl

/-- Nothing is cut off a value that nests no deeper than there is room. -/
theorem Written.cut_eq {n room : Nat} {j : Json} (h : Written n j) (hroom : n ≤ room) :
    j.cut room = j := by
  induction h generalizing room with
  | null => rfl
  | boolean b => rfl
  | number _ => rfl
  | string _ => rfl
  | array _ ih =>
    obtain ⟨room, rfl⟩ := Nat.exists_eq_add_of_le' hroom
    rw [← Nat.add_assoc, cut_array, List.map_congr_left fun j hj => ih j hj (by omega),
      List.map_id']
  | object _ _ ih =>
    obtain ⟨room, rfl⟩ := Nat.exists_eq_add_of_le' hroom
    rw [← Nat.add_assoc, cut_object, List.map_congr_left fun m hm => by
      rw [ih m hm (show _ ≤ _ by omega)], List.map_id']

end StreamQuery.Json
