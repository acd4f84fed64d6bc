import StreamQuery.Proofs.Json.Structures
import StreamQuery.Proofs.Yaml.Lines
import StreamQuery.Yaml.Document
set_option autoImplicit false

/-!
# Mappings

A node takes a token at least unless it is left out, and so does an entry, so the number that bounds
the entries of a mapping does not matter as long as it is larger than the number of tokens
(`takeBlockEntries_fuel`, `takeFlowEntries_fuel`).

The document of a text of lines has the entries of the lines, each a pair of plain scalars
(`Document.parse_lines`, `Document.scalars?_ofEntries`).
-/

namespace StreamQuery.Yaml

/-! ## Tokens of nodes and entries -/

section

variable {handles : Handles} {ends ts : List Token}

/-- Anchor and tag take a token if there is one of them. -/
theorem length_takeProperties {taken : Option (List Char) × Option Bytes × List Token}
    (h : takeProperties handles ts = some taken) : taken.2.2.length ≤ ts.length ∧
      (taken.1.isSome ∨ taken.2.1.isSome → taken.2.2.length < ts.length) := by
  unfold takeProperties at h
  split at h
  · obtain ⟨tag, -, h⟩ := Option.bind_eq_some_iff.1 h
    cases h
    simp only [List.length_cons]
    omega
  · obtain ⟨tag, -, h⟩ := Option.bind_eq_some_iff.1 h
    cases h
    simp only [List.length_cons]
    omega
  · cases h
    simp only [List.length_cons]
    omega
  · obtain ⟨tag, -, h⟩ := Option.bind_eq_some_iff.1 h
    cases h
    simp only [List.length_cons]
    omega
  · cases h
    exact ⟨Nat.le_refl _, fun h => by simp at h⟩

/-- A node takes a token. -/
theorem length_takeNode_lt {taken : Node × List Token} (h : takeNode handles ts = some taken) :
    taken.2.length < ts.length := by
  unfold takeNode at h
  split at h
  · cases h
    exact Nat.lt_succ_self _
  · obtain ⟨properties, hproperties, h⟩ := Option.bind_eq_some_iff.1 h
    obtain ⟨hle, hlt⟩ := length_takeProperties hproperties
    dsimp only at h
    split at h
    · rename_i text style rest hrest
      rw [hrest, List.length_cons] at hle
      cases h
      exact hle
    · split at h
      · rename_i hsome
        cases h
        exact hlt hsome
      · cases h

theorem length_takeNodeBefore_le {taken : Node × List Token}
    (h : takeNodeBefore ends handles ts = some taken) : taken.2.length ≤ ts.length := by
  unfold takeNodeBefore at h
  split at h
  · cases h
    exact Nat.le_refl _
  · exact Nat.le_of_lt (length_takeNode_lt h)

theorem length_takeValue_le {taken : Node × List Token}
    (h : takeValue ends handles ts = some taken) : taken.2.length ≤ ts.length := by
  unfold takeValue at h
  split at h
  · exact Nat.le_succ_of_le (length_takeNodeBefore_le h)
  · cases h
    exact Nat.le_refl _

/-- More steps than tokens are not needed. -/
theorem takeBlockEntries_fuel : ∀ {n m : Nat} {ts : List Token}, ts.length < n → ts.length < m →
    takeBlockEntries handles n ts = takeBlockEntries handles m ts
  | 0, _, _, hn, _ => absurd hn (Nat.not_lt_zero _)
  | _, 0, _, _, hm => absurd hm (Nat.not_lt_zero _)
  | n + 1, m + 1, ts, hn, hm => by
    unfold takeBlockEntries
    split
    case h_1 hzero => cases hzero
    case h_2 => rfl
    case h_3 k rest hk =>
      obtain rfl := Nat.succ.inj hk
      rw [List.length_cons] at hn hm
      refine Option.bind_congr fun key hkey => ?_
      refine Option.bind_congr fun value hvalue => ?_
      have hle := Nat.le_trans (length_takeValue_le hvalue) (length_takeNodeBefore_le hkey)
      dsimp only
      rw [takeBlockEntries_fuel (n := n) (m := m) (by omega) (by omega)]
    case h_4 => rfl

/-- An entry takes a token. -/
theorem length_takeFlowEntry_lt {taken : (Node × Node) × List Token}
    (h : takeFlowEntry handles ts = some taken) : taken.2.length < ts.length := by
  unfold takeFlowEntry at h
  split at h
  · obtain ⟨key, hkey, h⟩ := Option.bind_eq_some_iff.1 h
    obtain ⟨value, hvalue, h⟩ := Option.bind_eq_some_iff.1 h
    have hlast := Nat.le_trans (length_takeValue_le hvalue) (length_takeNodeBefore_le hkey)
    cases h
    exact Nat.lt_succ_of_le hlast
  · obtain ⟨key, hkey, h⟩ := Option.bind_eq_some_iff.1 h
    cases h
    exact length_takeNode_lt hkey

/-- More steps than tokens are not needed. -/
theorem takeFlowEntries_fuel : ∀ {n m : Nat} {ts : List Token}, ts.length < n → ts.length < m →
    takeFlowEntries handles n ts = takeFlowEntries handles m ts
  | 0, _, _, hn, _ => absurd hn (Nat.not_lt_zero _)
  | _, 0, _, _, hm => absurd hm (Nat.not_lt_zero _)
  | n + 1, m + 1, ts, hn, hm => by
    unfold takeFlowEntries
    split
    case h_1 hzero => cases hzero
    case h_2 => rfl
    case h_3 k hk _ =>
      obtain rfl := Nat.succ.inj hk
      refine Option.bind_congr fun entry hentry => ?_
      have hlt := length_takeFlowEntry_lt hentry
      dsimp only
      split
      case h_1 rest hrest =>
        rw [hrest, List.length_cons] at hlt
        rw [takeFlowEntries_fuel (n := n) (m := m) (by omega) (by omega)]
      case h_2 => rfl
      case h_3 => rfl

end

/-! ## Documents of lines -/

/-- A scalar without quotes and tag. -/
def Scalar.word (text : List Char) : Scalar := ⟨text, .plain, none⟩

/-- The document of some entries. -/
def Document.ofEntries (entries : List (List Char × List Char)) : Document :=
  ⟨none, entries.map fun e => (.scalar none (.word e.1), .scalar none (.word e.2))⟩

variable {entries : List (List Char × List Char)} {ls : List Line}

/-- Lines of characters that a text may hold are scanned to the tokens of their entries. -/
theorem scan_textOf (hls : ∀ l ∈ ls, l.Fits) (hallowed : (Line.textOf ls).all isAllowed = true) :
    scan (Line.textOf ls) = some (mappingTokens none (ls.filterMap Line.entry?)) := by
  have hstart : (Scanner.start (Line.textOf ls)).AtLine (Line.textOf ls) :=
    ⟨rfl, rfl, rfl, rfl, rfl, .inl rfl⟩
  unfold scan
  rw [if_pos hallowed, Scanner.takeTokens_lines hls hstart (Nat.lt_succ_self _)]
  rfl

/-- The entries of a mapping are taken up to its end. -/
theorem takeBlockEntries_bodyTokens (handles : Handles) {n : Nat} (hn : entries.length < n) :
    takeBlockEntries handles n (bodyTokens entries)
      = some ((Document.ofEntries entries).entries, []) := by
  induction entries generalizing n with
  | nil =>
    obtain ⟨m, rfl⟩ : ∃ m, n = m + 1 := ⟨n - 1, by omega⟩
    rfl
  | cons e entries ih =>
    rw [List.length_cons] at hn
    obtain ⟨m, rfl⟩ : ∃ m, n = m + 1 := ⟨n - 1, by omega⟩
    have hrest := ih (n := m) (by omega)
    rw [bodyTokens_cons]
    show (takeBlockEntries handles m (bodyTokens entries) >>= _) = _
    rw [hrest]
    rfl

/-- The tokens of a mapping make up its document. -/
theorem Document.ofTokens?_mappingTokens (entries : List (List Char × List Char)) :
    ofTokens? (mappingTokens none entries) = some (ofEntries entries) := by
  cases entries with
  | nil => rfl
  | cons e entries =>
    have hbody := takeBlockEntries_bodyTokens .standard
      (Nat.lt_succ_of_lt (length_lt_bodyTokens (e :: entries)))
    have hcontent : takeContent .standard (.blockStart :: bodyTokens (e :: entries))
        = some (ofEntries (e :: entries), []) := by
      show (takeBlockEntries .standard _ (bodyTokens (e :: entries)) >>= _) = _
      rw [hbody]
      rfl
    show (takeContent .standard (.blockStart :: bodyTokens (e :: entries)) >>= _) = _
    rw [hcontent]
    rfl

/-- The document of a text of lines has the entries of the lines. -/
theorem Document.parse_lines (hls : ∀ l ∈ ls, l.Fits)
    (hallowed : (Line.textOf ls).all isAllowed = true) :
    parse (String.ofList (Line.textOf ls)) = some (ofEntries (ls.filterMap Line.entry?)) := by
  unfold parse
  rw [String.toList_ofList, scan_textOf hls hallowed, Option.bind_some, ofTokens?_mappingTokens]

/-- The entries of such a document mean themselves. -/
theorem Document.scalars?_ofEntries (entries : List (List Char × List Char)) :
    (ofEntries entries).scalars?
      = some (entries.map fun e => (Scalar.word e.1, Scalar.word e.2)) := by
  let mean (e : List Char × List Char) : Scalar × Scalar := (.word e.1, .word e.2)
  have hentries : (ofEntries entries).entries
      = entries.map fun e => (.scalar none (.word e.1), .scalar none (.word e.2)) := rfl
  have hfirst : entries.zipIdx.map (mean ∘ Prod.fst) = entries.map mean := by
    rw [← List.map_map, List.zipIdx_map_fst]
  unfold scalars?
  rw [hentries, List.zipIdx_map, List.mapM_map, Json.mapM_eq_some_map (g := mean ∘ Prod.fst),
    hfirst]
  intro e he
  rfl

end StreamQuery.Yaml
