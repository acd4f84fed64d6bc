import StreamQuery.Proofs.Outcomes
import StreamQuery.Proofs.Value.Texts
import StreamQuery.Settings
set_option autoImplicit false

/-!
# Valid settings

Settings are valid if both capacities are powers of two and not too small.  Whatever loads settings
checks them at its end, so what it answers is valid; other settings are refused for the first
capacity that is not admissible, and the message names it (`Settings.validated_eq_error`).

The environment overrides three settings, each by a variable of its own.  The answer is told by what
these variables hold (`Settings.withEnvironment_eq_ok_iff`), and an error is about one of them or
about a capacity (`Settings.withEnvironment_eq_error`).
-/

namespace StreamQuery

/-! ## Messages -/

/-- The message of an error has a name in it. -/
def QueryError.Names (e : QueryError) (name : String) : Prop := name.toList <:+: e.message.toList

/-- The message about a declaration has the wording of its fault in it. -/
theorem QueryError.names_configuration {fault : ConfigurationFault} {name : String}
    (before after : String) (h : fault.message = before ++ name ++ after) :
    (QueryError.configuration fault).Names name := by
  have hmessage : (QueryError.configuration fault).message
      = "Configuration error: " ++ fault.message := rfl
  unfold QueryError.Names
  rw [hmessage, h, String.toList_append, String.toList_append, String.toList_append,
    ← List.append_assoc, ← List.append_assoc]
  exact List.infix_append _ _ _

theorem QueryError.names_entriesOutOfRange (setting : String) (least entries : Nat) :
    QueryError.Names (.configuration (.entriesOutOfRange setting least entries)) setting := by
  apply QueryError.names_configuration ""
    (" must be a power of two >= " ++ toString least ++ ", got " ++ toString entries)
  simp only [String.empty_append, ← String.append_assoc]
  rfl

theorem QueryError.names_entriesNotANumber (variableName text : String) :
    QueryError.Names (.configuration (.entriesNotANumber variableName text)) variableName := by
  apply QueryError.names_configuration "" (" must be a positive integer, got '" ++ text ++ "'")
  simp only [String.empty_append, ← String.append_assoc]
  rfl

theorem QueryError.names_unknownNullPolicy (text : String) :
    QueryError.Names (.configuration (.unknownNullPolicy text)) text :=
  QueryError.names_configuration "Unknown null policy '" "', expected 'skip' or 'fail_fast'" rfl

/-! ## Policies -/

namespace NullPolicy

variable {p : NullPolicy} {word text : String}

/-- The spellings of a policy where a person writes it, in small letters. -/
def spellings : NullPolicy → List String
  | skip => ["skip"]
  | failFast => ["fail_fast", "fail-fast", "failfast"]

/-- A policy is read off its spellings, in any case and among blanks, and off nothing else. -/
theorem parse_eq_ok_iff : parse text = .ok p ↔ Text.lowerAscii (Text.trim text) ∈ p.spellings := by
  unfold parse
  split
  case h_5 word hskip hsnake hkebab hplain =>
    constructor
    · intro h
      cases h
    · intro h
      cases p with
      | skip => exact absurd (List.mem_singleton.1 h) hskip
      | failFast =>
        simp only [spellings, List.mem_cons, List.not_mem_nil, or_false] at h
        rcases h with h | h | h
        · exact absurd h hsnake
        · exact absurd h hkebab
        · exact absurd h hplain
  all_goals
    rename_i h
    rw [h]
    cases p <;> decide

/-- Any other text is refused, and the message has it in small letters and without blanks. -/
theorem parse_eq_error {e : QueryError} (h : parse text = .error e) :
    e = .configuration (.unknownNullPolicy (Text.lowerAscii (Text.trim text))) ∧
      e.Names (Text.lowerAscii (Text.trim text)) := by
  unfold parse at h
  split at h
  case h_5 word hskip hsnake hkebab hplain =>
    obtain rfl := Except.error.inj h
    exact ⟨rfl, QueryError.names_unknownNullPolicy _⟩
  all_goals cases h

/-- A blank has no small letter besides itself. -/
theorem toLower_of_isBlank {c : Char} (h : Text.isBlank c = true) : c.toLower = c := by
  unfold Char.toLower
  refine dif_neg fun hupper => ?_
  have hlo : 65 ≤ c.toNat := UInt32.le_iff_toNat_le.1 hupper.1
  have hhi : c.toNat ≤ 90 := UInt32.le_iff_toNat_le.1 hupper.2
  simp only [Text.isBlank, Bool.or_eq_true, Bool.and_eq_true, decide_eq_true_eq, beq_iff_eq] at h
  omega

/-- What spells a policy in any case is a word. -/
theorem isWord_of_spelling (h : Text.lowerAscii word ∈ p.spellings) : Text.IsWord word := by
  have hspellings : ∀ p : NullPolicy, ∀ spelling ∈ p.spellings, Text.IsWord spelling := by
    intro p spelling hp
    cases p with
    | skip =>
      obtain rfl := List.mem_singleton.1 hp
      exact ⟨by decide, by simp [Text.isBlank]⟩
    | failFast =>
      simp only [spellings, List.mem_cons, List.not_mem_nil, or_false] at hp
      obtain rfl | rfl | rfl := hp <;> exact ⟨by decide, by simp [Text.isBlank]⟩
  exact Text.IsWord.of_map (fun _ => toLower_of_isBlank) (hspellings p _ h)

/-- A spelling in any case and among blanks is read. -/
theorem parse_padded (hword : Text.lowerAscii word ∈ p.spellings) (h : Text.Padded word text) :
    parse text = .ok p := by
  rw [parse_eq_ok_iff, h.trim_eq (isWord_of_spelling hword)]
  exact hword

end NullPolicy

namespace Settings

variable {s t : Settings} {n : Nat} {e : QueryError}

/-! ## Capacities -/

/-- A capacity that a sketch may have. -/
structure Admissible (n : Nat) : Prop where
  least_le : leastEntries ≤ n
  power : ∃ k, n = 2 ^ k

theorem isPowerOfTwo_iff : isPowerOfTwo n = true ↔ ∃ k, n = 2 ^ k := by
  unfold isPowerOfTwo
  rw [Bool.and_eq_true, bne_iff_ne, beq_iff_eq]
  constructor
  · intro h
    exact ⟨n.log2, h.2.symm⟩
  · intro h
    obtain ⟨k, hk⟩ := h
    rw [hk, Nat.log2_two_pow]
    exact ⟨(Nat.two_pow_pos k).ne', rfl⟩

theorem admissible_iff : Admissible n ↔ leastEntries ≤ n ∧ isPowerOfTwo n = true := by
  rw [isPowerOfTwo_iff]
  exact ⟨fun h => ⟨h.least_le, h.power⟩, fun h => ⟨h.1, h.2⟩⟩

instance (n : Nat) : Decidable (Admissible n) := decidable_of_iff _ admissible_iff.symm

/-- A capacity passes its check if it is admissible; otherwise the error is about its setting. -/
theorem checkEntries_eq (setting : String) (n : Nat) : checkEntries setting n =
    if Admissible n then .ok ()
    else .error (.configuration (.entriesOutOfRange setting leastEntries n)) := by
  unfold checkEntries
  rw [← ite_not (Admissible n)]
  refine if_congr ?_ rfl rfl
  rw [admissible_iff, Decidable.not_and_iff_or_not, Nat.not_le, Bool.not_eq_true]

/-! ## Checked settings -/

/-- The settings that are capacities, in the order in which they are checked. -/
def capacities (s : Settings) : List (String × Nat) :=
  [("count_distinct_entries", s.countDistinctEntries), ("group_entries", s.groupEntries)]

/-- Settings that queries may be run with. -/
def Valid (s : Settings) : Prop := ∀ c ∈ s.capacities, Admissible c.2

instance (s : Settings) : Decidable s.Valid :=
  inferInstanceAs (Decidable (∀ c ∈ s.capacities, Admissible c.2))

/-- The defaults are valid. -/
theorem valid_default : ({} : Settings).Valid := by
  decide

/-- Settings are refused for the first capacity that is not admissible. -/
theorem validated_eq (s : Settings) : s.validated =
    match s.capacities.find? fun c => decide (¬ Admissible c.2) with
    | none => .ok s
    | some c => .error (.configuration (.entriesOutOfRange c.1 leastEntries c.2)) := by
  unfold validated validate
  rw [checkEntries_eq, checkEntries_eq]
  by_cases hcount : Admissible s.countDistinctEntries
  · by_cases hgroup : Admissible s.groupEntries
    · simp [capacities, hcount, hgroup, bind, Except.bind, pure, Except.pure]
    · simp [capacities, hcount, hgroup, bind, Except.bind]
  · simp [capacities, hcount, bind, Except.bind]

/-- What has been checked is what was to be checked, and it is valid. -/
theorem validated_eq_ok_iff : s.validated = .ok t ↔ t = s ∧ s.Valid := by
  rw [validated_eq]
  split
  · rename_i hnone
    have hvalid : s.Valid := by
      intro c hc
      have hadmissible := List.find?_eq_none.1 hnone c hc
      rwa [decide_eq_true_eq, not_not] at hadmissible
    rw [Except.ok.injEq, eq_comm]
    exact ⟨fun h => ⟨h, hvalid⟩, fun h => h.1⟩
  · rename_i c hsome
    have hrefused := List.find?_some hsome
    rw [decide_eq_true_eq] at hrefused
    constructor
    · intro h
      cases h
    · intro h
      exact absurd (h.2 c (List.mem_of_find?_eq_some hsome)) hrefused

theorem validated_of_valid (h : s.Valid) : s.validated = .ok s := validated_eq_ok_iff.2 ⟨rfl, h⟩

/-- An error is about a capacity that is not admissible, and its message names the setting. -/
theorem validated_eq_error (h : s.validated = .error e) : ∃ c ∈ s.capacities, ¬ Admissible c.2 ∧
    e = .configuration (.entriesOutOfRange c.1 leastEntries c.2) ∧ e.Names c.1 := by
  rw [validated_eq] at h
  split at h
  · cases h
  · rename_i c hsome
    have hrefused := List.find?_some hsome
    rw [decide_eq_true_eq] at hrefused
    obtain rfl := Except.error.inj h
    exact ⟨c, List.mem_of_find?_eq_some hsome, hrefused, rfl,
      QueryError.names_entriesOutOfRange _ _ _⟩

/-! ## The environment -/

/-- The number in the text of a variable: decimal digits among blanks, which may have a plus. -/
def readEntries? (text : String) : Option Nat := Numeric.readWord64? (Text.trimBlanks text.toList)

/-- A setting after a variable was read: its present value if the variable is not set, and
otherwise what the text of the variable says. -/
def Overridden {α : Type} (read : String → Option α) (held : Option String) (present value : α) :
    Prop :=
  match held with
  | none => value = present
  | some text => read text = some value

/-- The variables of the environment that are read. -/
def variableNames : List String := [nullPolicyVariable, countDistinctVariable, groupVariable]

variable {environment : String → Option String} {variableName text : String} {present : Nat}

theorem entriesFrom_eq_ok_iff : entriesFrom environment variableName present = .ok n ↔
    Overridden readEntries? (environment variableName) present n := by
  unfold entriesFrom Overridden
  cases environment variableName with
  | none =>
    rw [Except.ok.injEq]
    exact eq_comm
  | some text =>
    cases hread : Numeric.readWord64? (Text.trimBlanks text.toList) with
    | none => simp [readEntries?, hread]
    | some m => simp [readEntries?, hread]

theorem entriesFrom_eq_error (h : entriesFrom environment variableName present = .error e) :
    ∃ text, environment variableName = some text ∧
      e = .configuration (.entriesNotANumber variableName text) := by
  unfold entriesFrom at h
  split at h
  · cases h
  · rename_i text htext
    split at h
    · cases h
    · exact ⟨text, htext, (Except.error.inj h).symm⟩

/-- The decimal text of a number is read among blanks. -/
theorem readEntries?_padded (hn : n < Numeric.word64Bound) (h : Text.Padded (toString n) text) :
    readEntries? text = some n := by
  have hdigits : (toString n).toList = Json.digits n := Nat.toList_repr
  have hword : Text.IsWord (toString n) := by
    unfold Text.IsWord
    rw [hdigits]
    exact ⟨Nat.toDigits_ne_nil, fun c hc => Text.isBlank_of_isDigit (Json.isDigit_of_mem_digits hc)⟩
  unfold readEntries? Numeric.readWord64?
  rw [h.trimBlanks_eq hword, hdigits,
    Numeric.readUnsigned?_of_isDigit fun c hc => Json.isDigit_of_mem_digits hc,
    Numeric.readNat?_digits, Option.filter_some, if_pos (decide_eq_true hn)]

/-- What the environment makes of settings before they are checked: each variable overrides its
setting, and the number of records stays. -/
structure OverriddenBy (environment : String → Option String) (s t : Settings) : Prop where
  nullPolicy : Overridden (fun text => (NullPolicy.parse text).toOption)
    (environment nullPolicyVariable) s.nullPolicy t.nullPolicy
  countDistinct : Overridden readEntries? (environment countDistinctVariable)
    s.countDistinctEntries t.countDistinctEntries
  group : Overridden readEntries? (environment groupVariable) s.groupEntries t.groupEntries
  maxResultRecords : t.maxResultRecords = s.maxResultRecords

/-- Reads the policy from its variable. -/
def policyFrom (environment : String → Option String) (present : NullPolicy) : Outcome NullPolicy :=
  match environment nullPolicyVariable with
  | none => .ok present
  | some text => NullPolicy.parse text

theorem policyFrom_eq_ok_iff {present p : NullPolicy} : policyFrom environment present = .ok p ↔
    Overridden (fun text => (NullPolicy.parse text).toOption) (environment nullPolicyVariable)
      present p := by
  unfold policyFrom Overridden
  cases environment nullPolicyVariable with
  | none =>
    rw [Except.ok.injEq]
    exact eq_comm
  | some text =>
    show NullPolicy.parse text = .ok p ↔ (NullPolicy.parse text).toOption = some p
    cases NullPolicy.parse text with
    | error e => simp [Except.toOption]
    | ok q => simp [Except.toOption]

/-- The variables are read one after another, and then all is checked. -/
theorem withEnvironment_eq (s : Settings) (environment : String → Option String) :
    s.withEnvironment environment = (do
      let nullPolicy ← policyFrom environment s.nullPolicy
      let countDistinctEntries ←
        entriesFrom environment countDistinctVariable s.countDistinctEntries
      let groupEntries ← entriesFrom environment groupVariable s.groupEntries
      validated { s with nullPolicy, countDistinctEntries, groupEntries }) := by
  unfold withEnvironment policyFrom
  cases environment nullPolicyVariable <;> rfl

/-- The environment is followed to valid settings, exactly. -/
theorem withEnvironment_eq_ok_iff :
    s.withEnvironment environment = .ok t ↔ OverriddenBy environment s t ∧ t.Valid := by
  rw [withEnvironment_eq]
  simp only [bind_eq_ok_iff, policyFrom_eq_ok_iff, entriesFrom_eq_ok_iff, validated_eq_ok_iff]
  constructor
  · rintro ⟨p, hp, c, hc, g, hg, rfl, hvalid⟩
    exact ⟨⟨hp, hc, hg, rfl⟩, hvalid⟩
  · rintro ⟨h, hvalid⟩
    refine ⟨t.nullPolicy, h.nullPolicy, t.countDistinctEntries, h.countDistinct, t.groupEntries,
      h.group, ?_⟩
    rw [← h.maxResultRecords]
    exact ⟨rfl, hvalid⟩

/-- An error is about the text of a variable that is set, or about a capacity among the settings
that the environment makes; its message names the one to blame. -/
theorem withEnvironment_eq_error (h : s.withEnvironment environment = .error e) :
    (∃ text, environment nullPolicyVariable = some text ∧ NullPolicy.parse text = .error e) ∨
      (∃ name ∈ [countDistinctVariable, groupVariable], e.Names name ∧
        ∃ text, environment name = some text ∧
          e = .configuration (.entriesNotANumber name text)) ∨
      ∃ t, OverriddenBy environment s t ∧ t.validated = .error e := by
  rw [withEnvironment_eq] at h
  have hentries {name : String} {present : Nat}
      (hname : name ∈ [countDistinctVariable, groupVariable])
      (hread : entriesFrom environment name present = .error e) :
      ∃ name ∈ [countDistinctVariable, groupVariable], e.Names name ∧
        ∃ text, environment name = some text ∧
          e = .configuration (.entriesNotANumber name text) := by
    obtain ⟨text, htext, rfl⟩ := entriesFrom_eq_error hread
    exact ⟨name, hname, QueryError.names_entriesNotANumber _ _, text, htext, rfl⟩
  rcases bind_eq_error_iff.1 h with hpolicy | ⟨p, hp, h⟩
  · left
    unfold policyFrom at hpolicy
    split at hpolicy
    · cases hpolicy
    · rename_i text htext
      exact ⟨text, htext, hpolicy⟩
  · right
    rcases bind_eq_error_iff.1 h with hcount | ⟨c, hc, h⟩
    · exact .inl (hentries (by decide) hcount)
    · rcases bind_eq_error_iff.1 h with hgroup | ⟨g, hg, h⟩
      · exact .inl (hentries (by decide) hgroup)
      · right
        refine ⟨⟨p, c, g, s.maxResultRecords⟩, ?_, h⟩
        exact ⟨policyFrom_eq_ok_iff.1 hp, entriesFrom_eq_ok_iff.1 hc,
          entriesFrom_eq_ok_iff.1 hg, rfl⟩

/-- Settings are only checked where no variable is set. -/
theorem withEnvironment_unset (h : ∀ name ∈ variableNames, environment name = none) :
    s.withEnvironment environment = s.validated := by
  have hpolicy := h nullPolicyVariable (by decide)
  have hcount := h countDistinctVariable (by decide)
  have hgroup := h groupVariable (by decide)
  unfold withEnvironment entriesFrom
  rw [hpolicy, hcount, hgroup]
  rfl

end Settings

end StreamQuery
