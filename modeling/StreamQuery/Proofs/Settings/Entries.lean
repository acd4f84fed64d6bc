import StreamQuery.Proofs.Json.Structures
import StreamQuery.Proofs.Settings.Validity
import StreamQuery.Proofs.Yaml.Mappings
import StreamQuery.Settings.Document
set_option autoImplicit false

/-!
# Settings by their entries

A document of settings is read as entries, each the name of a setting with its value.  Every entry
must be a setting, no setting may stand twice, and one that is left out has its default; the order
of the entries does not matter (`Settings.ofEntries?_eq_some_iff`, `Settings.ofEntries?_perm`).  So
settings are read back from any of their entries, those without an entry being defaults
(`Settings.ofEntries?_stating`), and from their JSON (`Settings.ofJson?_toJson`).
-/

namespace StreamQuery

/-! ## Numbers and policies -/

namespace Numeric

/-- Decimal digits in the reading of any base. -/
theorem readRadix?_ten {cs : List Char} (hne : cs ≠ []) (hdigits : ∀ c ∈ cs, c.isDigit = true) :
    readRadix? 10 cs = some (digitsValue cs) := by
  have hfold : ∀ n, cs.foldlM (fun n c => ((hexValue? c).filter (· < 10)).map (10 * n + ·)) n
      = some (cs.foldl (fun n c => 10 * n + (c.toNat - '0'.toNat)) n) := by
    clear hne
    induction cs with
    | nil =>
      intro n
      rfl
    | cons c cs ih =>
      intro n
      have hc : c.isDigit = true := hdigits c List.mem_cons_self
      have hvalue : c.toNat - '0'.toNat < 10 := by
        have := Json.isDigit_iff.1 hc
        have hzero : '0'.toNat = 48 := rfl
        omega
      rw [List.foldlM_cons, hexValue?, if_pos hc, Option.filter_some,
        if_pos (decide_eq_true hvalue)]
      exact ih (fun c hc => hdigits c (List.mem_cons_of_mem _ hc)) _
  unfold readRadix?
  rw [if_neg hne]
  exact hfold 0

end Numeric

namespace Settings

variable {s t : Settings} {n : Nat} {entries entries' : List Entry}

/-- A number has no mark for its base unless it starts with zero. -/
theorem readNumber?_cons {c : Char} {rest : List Char} (hsign : c ≠ '+') (hzero : c ≠ '0') :
    readNumber? (c :: rest) = Numeric.readRadix? 10 (c :: rest) := by
  unfold readNumber?
  split
  · rename_i h
    exact absurd (List.cons.inj h).1 hsign
  · dsimp only
    split
    case h_6 => rfl
    all_goals
      rename_i h
      exact absurd (List.cons.inj h).1 hzero

/-- A number is read back from its decimal digits. -/
theorem readNumber?_digits (n : Nat) : readNumber? (Json.digits n) = some n := by
  rcases Nat.eq_zero_or_pos n with rfl | hpos
  · rfl
  · obtain ⟨c, rest, hdigits, hc⟩ := Json.digits_head hpos
    have hradix : Numeric.readRadix? 10 (Json.digits n)
        = some (Numeric.digitsValue (Json.digits n)) :=
      Numeric.readRadix?_ten Nat.toDigits_ne_nil fun c hc => Json.isDigit_of_mem_digits hc
    rw [Json.digitsValue_digits, hdigits] at hradix
    rw [hdigits, readNumber?_cons (Json.digits_ne_sign n hdigits).2 hc]
    exact hradix

theorem numberOf?_digits (hn : n < Numeric.word64Bound) :
    numberOf? (.word (Json.digits n)) = some n := by
  unfold numberOf? Yaml.Scalar.word
  rw [readNumber?_digits, Option.filter_some, if_pos (decide_eq_true hn)]
  rfl

theorem policyOf?_name (p : NullPolicy) : policyOf? (.word p.name.toList) = some p := by
  show NullPolicy.ofName? (String.ofList p.name.toList) = some p
  rw [String.ofList_toList, NullPolicy.ofName?_name]

/-! ## What entries say -/

/-- What entries say of a setting: nothing, so that it has its default, or its value, once. -/
inductive Says {α : Type} (name : String) (read : Yaml.Scalar → Option α) (absent : α)
    (entries : List Entry) : α → Prop
  | nothing (h : ∀ e ∈ entries, e.1 ≠ name.toList) : Says name read absent entries absent
  | once {before after : List Entry} {v : Yaml.Scalar} {a : α}
      (h : entries = before ++ (name.toList, v) :: after)
      (hbefore : ∀ e ∈ before, e.1 ≠ name.toList) (hafter : ∀ e ∈ after, e.1 ≠ name.toList)
      (hread : read v = some a) : Says name read absent entries a

theorem entryNamed?_eq_some_iff {α : Type} {name : String} {read : Yaml.Scalar → Option α}
    {absent a : α} :
    entryNamed? name read absent entries = some a ↔ Says name read absent entries a := by
  unfold entryNamed?
  constructor
  · intro h
    split at h
    · rename_i hnil
      obtain rfl := Option.some.inj h
      refine .nothing fun e he hname => ?_
      exact List.filter_eq_nil_iff.1 hnil e he (beq_iff_eq.2 hname)
    · rename_i e hone
      obtain ⟨before, after, rfl, hbefore, he, hafter⟩ := List.filter_eq_cons_iff.1 hone
      obtain ⟨key, v⟩ := e
      obtain rfl := beq_iff_eq.1 he
      refine .once rfl (fun e he hname => hbefore e he (beq_iff_eq.2 hname))
        (fun e he hname => ?_) h
      exact List.filter_eq_nil_iff.1 hafter e he (beq_iff_eq.2 hname)
    · cases h
  · intro h
    have hnone {es : List Entry} (hes : ∀ e ∈ es, e.1 ≠ name.toList) :
        es.filter (fun e => e.1 == name.toList) = [] :=
      List.filter_eq_nil_iff.2 fun e he hname => hes e he (beq_iff_eq.1 hname)
    cases h with
    | nothing h => rw [hnone h]
    | once h hbefore hafter hread =>
      simp only [h, List.filter_append, hnone hbefore, List.nil_append, List.filter_cons,
        beq_self_eq_true, if_true, hnone hafter]
      exact hread

/-- Settings as entries tell them: each entry is a setting, and each setting is what the entries say
of it. -/
structure ToldBy (entries : List Entry) (s : Settings) : Prop where
  known : ∀ e ∈ entries, ∃ f ∈ fieldNames, f.1.toList = e.1
  nullPolicy : Says "null_policy" policyOf? .skip entries s.nullPolicy
  countDistinct : Says "count_distinct_entries" numberOf? 16384 entries s.countDistinctEntries
  group : Says "group_entries" numberOf? 512 entries s.groupEntries
  maxResultRecords : Says "max_result_records" numberOf? 0 entries s.maxResultRecords

theorem ofEntries?_eq_some_iff : ofEntries? entries = some s ↔ ToldBy entries s := by
  unfold ofEntries?
  have hknown : (entries.all fun e => fieldNames.any fun f => f.1.toList == e.1) = true ↔
      ∀ e ∈ entries, ∃ f ∈ fieldNames, f.1.toList = e.1 := by
    simp only [List.all_eq_true, List.any_eq_true, beq_iff_eq]
  simp only [Option.ite_none_right_eq_some, hknown, Option.bind_eq_bind, Option.bind_eq_some_iff,
    entryNamed?_eq_some_iff, Option.pure_def, Option.some.injEq]
  constructor
  · rintro ⟨hentries, p, hp, c, hc, g, hg, m, hm, rfl⟩
    exact ⟨hentries, hp, hc, hg, hm⟩
  · intro h
    exact ⟨h.known, _, h.nullPolicy, _, h.countDistinct, _, h.group, _, h.maxResultRecords, rfl⟩

/-- A setting that entries say something of stands once at most. -/
theorem Says.count_le_one {α : Type} {name : String} {read : Yaml.Scalar → Option α} {absent a : α}
    (h : Says name read absent entries a) : (entries.map Prod.fst).count name.toList ≤ 1 := by
  have hnone {es : List Entry} (hes : ∀ e ∈ es, e.1 ≠ name.toList) :
      (es.map Prod.fst).count name.toList = 0 := by
    refine List.count_eq_zero.2 fun hmem => ?_
    obtain ⟨e, he, hname⟩ := List.mem_map.1 hmem
    exact hes e he hname
  cases h with
  | nothing h =>
    rw [hnone h]
    exact Nat.zero_le 1
  | once h hbefore hafter hread =>
    rw [h, List.map_append, List.map_cons, List.count_append, List.count_cons_self, hnone hbefore,
      hnone hafter]

/-- No setting stands twice. -/
theorem ToldBy.nodup (h : ToldBy entries s) : (entries.map Prod.fst).Nodup := by
  refine List.nodup_iff_count_le_one.2 fun key => ?_
  by_cases hkey : key ∈ entries.map Prod.fst
  · obtain ⟨e, he, rfl⟩ := List.mem_map.1 hkey
    obtain ⟨f, hf, hname⟩ := h.known e he
    rw [← hname]
    simp only [fieldNames, List.mem_cons, List.not_mem_nil, or_false] at hf
    obtain rfl | rfl | rfl | rfl := hf
    · exact h.nullPolicy.count_le_one
    · exact h.countDistinct.count_le_one
    · exact h.group.count_le_one
    · exact h.maxResultRecords.count_le_one
  · rw [List.count_eq_zero.2 hkey]
    exact Nat.zero_le 1

/-- The order of the entries does not matter. -/
theorem ofEntries?_perm (h : entries.Perm entries') : ofEntries? entries = ofEntries? entries' := by
  have hnamed {α : Type} (name : String) (read : Yaml.Scalar → Option α) (absent : α) :
      entryNamed? name read absent entries = entryNamed? name read absent entries' := by
    have hperm := h.filter fun e => e.1 == name.toList
    unfold entryNamed?
    generalize entries.filter _ = es at hperm
    generalize entries'.filter _ = es' at hperm
    match es, hperm with
    | [], hperm => rw [List.nil_perm.1 hperm]
    | [e], hperm => rw [List.singleton_perm.1 hperm]
    | e :: e' :: es, hperm =>
      have hlength := hperm.length_eq
      match es', hlength with
      | _ :: _ :: _, _ => rfl
  unfold ofEntries?
  simp only [h.all_eq, hnamed]

/-! ## Settings from their own entries -/

/-- Every setting with the text of its value. -/
def statements (s : Settings) : List (String × List Char) :=
  [("null_policy", s.nullPolicy.name.toList),
    ("count_distinct_entries", Json.digits s.countDistinctEntries),
    ("group_entries", Json.digits s.groupEntries),
    ("max_result_records", Json.digits s.maxResultRecords)]

/-- The entries that state some settings. -/
def entriesOf (kept : List (String × List Char)) : List Entry :=
  kept.map fun e => (e.1.toList, .word e.2)

/-- Settings of which only those with some names are stated; the others have their defaults. -/
def only (s : Settings) (names : List String) : Settings where
  nullPolicy := if "null_policy" ∈ names then s.nullPolicy else .skip
  countDistinctEntries := if "count_distinct_entries" ∈ names then s.countDistinctEntries else 16384
  groupEntries := if "group_entries" ∈ names then s.groupEntries else 512
  maxResultRecords := if "max_result_records" ∈ names then s.maxResultRecords else 0

/-- The numbers of settings fit a word. -/
structure NumbersFit (s : Settings) : Prop where
  countDistinct : s.countDistinctEntries < Numeric.word64Bound
  group : s.groupEntries < Numeric.word64Bound
  maxResultRecords : s.maxResultRecords < Numeric.word64Bound

variable {kept : List (String × List Char)}

/-- Entries say of a setting what its text says, if they have an entry for it. -/
theorem says_entriesOf {α : Type} {name : String} {read : Yaml.Scalar → Option α} {absent a : α}
    {text : List Char} (hnodup : (kept.map Prod.fst).Nodup)
    (htext : ∀ e ∈ kept, e.1 = name → e.2 = text) (hread : read (.word text) = some a) :
    Says name read absent (entriesOf kept)
      (if name ∈ kept.map Prod.fst then a else absent) := by
  have hother {es : List (String × List Char)} (hes : name ∉ es.map Prod.fst) :
      ∀ e ∈ entriesOf es, e.1 ≠ name.toList := by
    intro e he hname
    obtain ⟨e', he', rfl⟩ := List.mem_map.1 he
    exact hes (String.toList_inj.1 hname ▸ List.mem_map_of_mem he')
  split
  · rename_i hmem
    obtain ⟨e, he, rfl⟩ := List.mem_map.1 hmem
    obtain ⟨before, after, rfl⟩ := List.append_of_mem he
    obtain rfl := htext e he rfl
    rw [List.map_append, List.map_cons, List.nodup_append, List.nodup_cons] at hnodup
    refine .once (List.map_append ..) (hother fun hbefore => ?_) (hother hnodup.2.1.1) hread
    exact hnodup.2.2 _ hbefore _ List.mem_cons_self rfl
  · rename_i hmem
    exact .nothing (hother hmem)

/-- Settings are read back from any of their entries, in any order; those without an entry have
their defaults. -/
theorem ofEntries?_stating (hs : s.NumbersFit) (hkept : ∀ e ∈ kept, e ∈ s.statements)
    (hnodup : (kept.map Prod.fst).Nodup) :
    ofEntries? (entriesOf kept) = some (s.only (kept.map Prod.fst)) := by
  have htext {name : String} {text : List Char}
      (hname : ∀ e ∈ s.statements, e.1 = name → e.2 = text) :
      ∀ e ∈ kept, e.1 = name → e.2 = text := fun e he => hname e (hkept e he)
  refine ofEntries?_eq_some_iff.2 ⟨fun e he => ?_, ?_, ?_, ?_, ?_⟩
  · obtain ⟨e', he', rfl⟩ := List.mem_map.1 he
    have hnames : s.statements.map Prod.fst = fieldNames.map Prod.fst := rfl
    have hname : e'.1 ∈ fieldNames.map Prod.fst := hnames ▸ List.mem_map_of_mem (hkept e' he')
    obtain ⟨f, hf, hfe⟩ := List.mem_map.1 hname
    exact ⟨f, hf, congrArg String.toList hfe⟩
  · exact says_entriesOf hnodup (htext (by simp [statements])) (policyOf?_name _)
  · exact says_entriesOf hnodup (htext (by simp [statements])) (numberOf?_digits hs.countDistinct)
  · exact says_entriesOf hnodup (htext (by simp [statements])) (numberOf?_digits hs.group)
  · exact says_entriesOf hnodup (htext (by simp [statements]))
      (numberOf?_digits hs.maxResultRecords)

/-- All entries together state the settings. -/
theorem only_all (s : Settings) : s.only (s.statements.map Prod.fst) = s := rfl

/-! ## JSON -/

/-- The members of the JSON of settings. -/
def members (s : Settings) : List (String × Json) :=
  [("null_policy", .ofString s.nullPolicy.name),
    ("count_distinct_entries", .ofNat s.countDistinctEntries),
    ("group_entries", .ofNat s.groupEntries),
    ("max_result_records", .ofNat s.maxResultRecords)]

theorem onlySettings_toJson (s : Settings) : onlySettings s.toJson = true := by
  unfold onlySettings toJson Json.ofMembers
  simp [Json.decodeText?_encodeText, fieldNames]

/-- Settings are read back from their JSON. -/
theorem ofJson?_toJson (hs : s.NumbersFit) : ofJson? s.toJson = some s := by
  have hnames : fieldNames.map Prod.fst = s.members.map Prod.fst := rfl
  have hnodup : (s.members.map Prod.fst).Nodup := by
    rw [← hnames]
    decide
  have hfields : s.toJson.fields? fieldNames = some (s.members.map fun m => some m.2) :=
    Json.fields?_ofMembers hnames hnodup
  unfold ofJson?
  rw [if_pos (onlySettings_toJson s), hfields]
  simp only [members, List.map_cons, List.map_nil, readSetting, Json.asName?_ofString,
    NullPolicy.ofName?_name, Json.asNat?_ofNat hs.countDistinct, Json.asNat?_ofNat hs.group,
    Json.asNat?_ofNat hs.maxResultRecords]
  rfl

end Settings

end StreamQuery
