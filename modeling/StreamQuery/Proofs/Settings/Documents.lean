import StreamQuery.Proofs.Settings.Entries
set_option autoImplicit false

/-!
# Documents of settings

What loading a document gives.  A document is accepted exactly if it has entries and they tell valid
settings (`Settings.parseDocument_eq_ok_iff`): one that sets anything else, or something twice, is
refused as a whole.  Any other error is about a capacity, which it names
(`Settings.parseDocument_eq_error`).

The entries of a document that is written line by line are those on its lines, so settings are
loaded from any of their entries, in any order, with empty lines and comments between them
(`Settings.parseDocument_stating`), and valid settings from their own document
(`Settings.parseDocument_document`).
-/

namespace StreamQuery

/-! ## Words of settings -/

namespace Yaml

variable {c : Char} {cs : List Char}

/-- Letters, digits, underscores and hyphens are ASCII characters that show. -/
theorem isAllowed_of_isWordChar (h : isWordChar c = true) : isAllowed c = true := by
  have hrange : 0x20 ≤ c.toNat ∧ c.toNat ≤ 0x7E := by
    simp only [isWordChar, Char.isAlphanum, Char.isAlpha, Char.isUpper, Char.isLower, Char.isDigit,
      Bool.or_eq_true, Bool.and_eq_true, decide_eq_true_eq, beq_iff_eq, ge_iff_le,
      UInt32.le_iff_toNat_le] at h
    change (((65 ≤ c.toNat ∧ c.toNat ≤ 90 ∨ 97 ≤ c.toNat ∧ c.toNat ≤ 122) ∨
      48 ≤ c.toNat ∧ c.toNat ≤ 57) ∨ c = '_') ∨ c = '-' at h
    rcases h with (h | rfl) | rfl
    · omega
    · decide
    · decide
  unfold isAllowed
  simp [hrange.1, hrange.2]

/-- A test that a character passes tells it from those that do not. -/
theorem ne_of_test {test : Char → Bool} (h : test c = true) {x : Char} (hx : test x = false) :
    c ≠ x := by
  rintro rfl
  rw [h] at hx
  cases hx

theorem isPlain_of_isWordChar (h : isWordChar c = true) : isPlain c = true := by
  have hne {x : Char} (hx : isWordChar x = false) : c ≠ x := ne_of_test h hx
  unfold isPlain isBlank isBreak
  simp [hne, isWordChar]

theorem startsWord_of_isAlphanum (h : c.isAlphanum = true) : startsWord c = true := by
  have hne {x : Char} (hx : x.isAlphanum = false) : c ≠ x := ne_of_test h hx
  unfold startsWord Scanner.isReserved isFlowMark
  simp [hne]

/-- Letters, digits, underscores and hyphens, the first of them a letter or a digit. -/
def isWordName (cs : List Char) : Bool := cs.head?.any Char.isAlphanum && cs.all isWordChar

theorem isWord_of_isWordName (h : isWordName cs = true) : IsWord cs := by
  unfold isWordName at h
  rw [Bool.and_eq_true, List.all_eq_true] at h
  obtain ⟨hhead, hcs⟩ := h
  refine ⟨?_, fun c hc => isPlain_of_isWordChar (hcs c hc)⟩
  cases cs with
  | nil => cases hhead
  | cons c rest => exact startsWord_of_isAlphanum hhead

theorem allowed_of_isWordName (h : isWordName cs = true) : ∀ c ∈ cs, isAllowed c = true := by
  unfold isWordName at h
  rw [Bool.and_eq_true, List.all_eq_true] at h
  exact fun c hc => isAllowed_of_isWordChar (h.2 c hc)

end Yaml

namespace Settings

variable {s t : Settings} {e : QueryError} {text : String} {entries : List Entry}
  {ls : List Yaml.Line}

/-! ## Any document -/

/-- Settings that a document gives are valid. -/
theorem valid_of_parseDocument (h : parseDocument text = .ok s) : s.Valid := by
  unfold parseDocument at h
  split at h
  · obtain ⟨rfl, hvalid⟩ := validated_eq_ok_iff.1 h
    exact hvalid
  · cases h

/-- A document is refused as a whole, or for a capacity, which the message names. -/
theorem parseDocument_eq_error (h : parseDocument text = .error e) :
    e = .configuration .malformedSettings ∨
      ∃ s : Settings, ∃ c ∈ s.capacities, ¬ Admissible c.2 ∧
        e = .configuration (.entriesOutOfRange c.1 leastEntries c.2) ∧ e.Names c.1 := by
  unfold parseDocument at h
  split at h
  · rename_i s hs
    exact .inr ⟨s, validated_eq_error h⟩
  · exact .inl (Except.error.inj h).symm

/-- The entries of the document of a text. -/
def documentEntries? (text : String) : Option (List Entry) :=
  (Yaml.Document.parse text).bind fun d =>
    d.scalars?.map fun entries => entries.map fun e => (e.1.text, e.2)

/-- Settings are read off the entries. -/
theorem bind_ofDocument? (text : String) :
    (Yaml.Document.parse text).bind ofDocument? = (documentEntries? text).bind ofEntries? := by
  unfold documentEntries?
  rw [Option.bind_assoc]
  refine Option.bind_congr fun d _ => ?_
  unfold ofDocument?
  cases d.scalars? <;> rfl

/-- Settings that the entries of a document tell are loaded from it if they are valid. -/
theorem parseDocument_of_told (h : documentEntries? text = some entries)
    (htold : ToldBy entries s) : parseDocument text = s.validated := by
  unfold parseDocument
  simp only [bind_ofDocument?, h, Option.bind_some, ofEntries?_eq_some_iff.2 htold]

/-- A document whose entries tell no settings is refused as a whole. -/
theorem parseDocument_of_untold
    (h : ∀ entries, documentEntries? text = some entries → ∀ s, ¬ ToldBy entries s) :
    parseDocument text = .error (.configuration .malformedSettings) := by
  have hnone : (documentEntries? text).bind ofEntries? = none := by
    rw [Option.bind_eq_none_iff]
    intro entries hentries
    refine Option.eq_none_iff_forall_ne_some.2 fun s hs => ?_
    exact h entries hentries s (ofEntries?_eq_some_iff.1 hs)
  unfold parseDocument
  simp only [bind_ofDocument?, hnone]

/-- A document is accepted exactly if it has entries and they tell valid settings. -/
theorem parseDocument_eq_ok_iff : parseDocument text = .ok s ↔
    ∃ entries, documentEntries? text = some entries ∧ ToldBy entries s ∧ s.Valid := by
  constructor
  · intro h
    by_cases htold : ∃ entries, documentEntries? text = some entries ∧ ∃ t, ToldBy entries t
    · obtain ⟨entries, hentries, t, ht⟩ := htold
      rw [parseDocument_of_told hentries ht] at h
      obtain ⟨rfl, hvalid⟩ := validated_eq_ok_iff.1 h
      exact ⟨entries, hentries, ht, hvalid⟩
    · rw [parseDocument_of_untold fun entries hentries t ht =>
        htold ⟨entries, hentries, t, ht⟩] at h
      cases h
  · rintro ⟨entries, hentries, htold, hvalid⟩
    rw [parseDocument_of_told hentries htold]
    exact validated_of_valid hvalid

/-- A document that sets anything else is refused as a whole. -/
theorem parseDocument_of_unknown (h : documentEntries? text = some entries) {e : Entry}
    (he : e ∈ entries) (hunknown : ∀ f ∈ fieldNames, f.1.toList ≠ e.1) :
    parseDocument text = .error (.configuration .malformedSettings) := by
  refine parseDocument_of_untold fun es hes s htold => ?_
  obtain rfl := Option.some.inj (h.symm.trans hes)
  obtain ⟨f, hf, hname⟩ := htold.known e he
  exact hunknown f hf hname

/-- A document that sets something twice is refused as a whole. -/
theorem parseDocument_of_repeated (h : documentEntries? text = some entries)
    (hrepeated : ¬ (entries.map Prod.fst).Nodup) :
    parseDocument text = .error (.configuration .malformedSettings) := by
  refine parseDocument_of_untold fun es hes s htold => ?_
  obtain rfl := Option.some.inj (h.symm.trans hes)
  exact hrepeated htold.nodup

/-! ## Documents of lines -/

/-- The entries on lines. -/
def entriesOn (ls : List Yaml.Line) : List Entry :=
  (ls.filterMap Yaml.Line.entry?).map fun e => (e.1, .word e.2)

/-- The document of lines has the entries on them. -/
theorem documentEntries?_lines (hls : ∀ l ∈ ls, l.Fits)
    (hallowed : (Yaml.Line.textOf ls).all Yaml.isAllowed = true) :
    documentEntries? (String.ofList (Yaml.Line.textOf ls)) = some (entriesOn ls) := by
  unfold documentEntries?
  rw [Yaml.Document.parse_lines hls hallowed, Option.bind_some, Yaml.Document.scalars?_ofEntries,
    Option.map_some]
  exact congrArg some List.map_map

/-! ## Settings from their own document -/

theorem isWordName_digits (n : Nat) : Yaml.isWordName (Json.digits n) = true := by
  have hdigit {c : Char} (hc : c.isDigit = true) : c.isAlphanum = true := by
    unfold Char.isAlphanum
    rw [hc, Bool.or_true]
  unfold Yaml.isWordName
  rw [Bool.and_eq_true, List.all_eq_true]
  refine ⟨?_, fun c hc => ?_⟩
  · cases hcs : Json.digits n with
    | nil => exact absurd hcs Nat.toDigits_ne_nil
    | cons c rest => exact hdigit (Json.isDigit_of_mem_digits (hcs ▸ List.mem_cons_self))
  · unfold Yaml.isWordChar
    rw [hdigit (Json.isDigit_of_mem_digits hc), Bool.true_or, Bool.true_or]

/-- The names of settings are words and no longer than keys may be. -/
theorem isWordName_fieldNames : (fieldNames.all fun f =>
    Yaml.isWordName f.1.toList && decide (f.1.toList.length ≤ Yaml.Scanner.keyWidth)) = true := by
  decide +kernel

/-- What states a setting fits a line. -/
theorem isWordName_statement {st : String × List Char} (h : st ∈ s.statements) :
    Yaml.isWordName st.1.toList = true ∧ st.1.toList.length ≤ Yaml.Scanner.keyWidth ∧
      Yaml.isWordName st.2 = true := by
  have hname : st.1 ∈ fieldNames.map Prod.fst := List.mem_map_of_mem h
  obtain ⟨f, hf, hfst⟩ := List.mem_map.1 hname
  have hkey := List.all_eq_true.1 isWordName_fieldNames f hf
  rw [Bool.and_eq_true, decide_eq_true_eq, hfst] at hkey
  refine ⟨hkey.1, hkey.2, ?_⟩
  have hpolicy : Yaml.isWordName s.nullPolicy.name.toList = true := by
    cases s.nullPolicy <;> decide +kernel
  simp only [statements, List.mem_cons, List.not_mem_nil, or_false] at h
  obtain rfl | rfl | rfl | rfl := h
  · exact hpolicy
  · exact isWordName_digits _
  · exact isWordName_digits _
  · exact isWordName_digits _

/-- Lines that state some settings, with empty lines and comments anywhere. -/
structure States (ls : List Yaml.Line) (kept : List (String × List Char)) : Prop where
  entries : ls.filterMap Yaml.Line.entry? = kept.map fun st => (st.1.toList, st.2)
  comments : ∀ text, Yaml.Line.comment text ∈ ls →
    ∀ c ∈ text, Yaml.isBreak c = false ∧ Yaml.isAllowed c = true

/-- Lines that state settings can be read. -/
theorem States.line {kept : List (String × List Char)} (hls : States ls kept)
    (hkept : ∀ st ∈ kept, st ∈ s.statements) :
    ∀ l ∈ ls, l.Fits ∧ ∀ c ∈ l.text, Yaml.isAllowed c = true := by
  intro l hl
  cases l with
  | entry key value =>
    have hmem : (key, value) ∈ ls.filterMap Yaml.Line.entry? := List.mem_filterMap.2 ⟨_, hl, rfl⟩
    rw [hls.entries] at hmem
    obtain ⟨st, hst, heq⟩ := List.mem_map.1 hmem
    obtain ⟨rfl, rfl⟩ := Prod.mk.inj heq
    obtain ⟨hkey, hwidth, hvalue⟩ := isWordName_statement (hkept st hst)
    refine ⟨⟨Yaml.isWord_of_isWordName hkey, hwidth, Yaml.isWord_of_isWordName hvalue⟩, ?_⟩
    intro c hc
    simp only [Yaml.Line.text, List.mem_append, List.mem_cons, List.not_mem_nil, or_false] at hc
    rcases hc with hc | rfl | rfl | hc | rfl
    · exact Yaml.allowed_of_isWordName hkey c hc
    · rfl
    · rfl
    · exact Yaml.allowed_of_isWordName hvalue c hc
    · rfl
  | comment text =>
    have htext := hls.comments text hl
    refine ⟨fun c hc => (htext c hc).1, fun c hc => ?_⟩
    simp only [Yaml.Line.text, List.mem_append, List.mem_cons, List.not_mem_nil, or_false] at hc
    rcases hc with rfl | hc | rfl
    · rfl
    · exact (htext c hc).2
    · rfl
  | empty =>
    refine ⟨trivial, fun c hc => ?_⟩
    obtain rfl := List.mem_singleton.1 hc
    rfl

/-- Settings are loaded from lines that state any of them, in any order; the others have their
defaults. -/
theorem parseDocument_stating (hs : s.NumbersFit) {kept : List (String × List Char)}
    (hkept : ∀ st ∈ kept, st ∈ s.statements) (hnodup : (kept.map Prod.fst).Nodup)
    (hls : States ls kept) : parseDocument (String.ofList (Yaml.Line.textOf ls))
      = (s.only (kept.map Prod.fst)).validated := by
  have hline := hls.line hkept
  have hallowed : (Yaml.Line.textOf ls).all Yaml.isAllowed = true := by
    rw [List.all_eq_true]
    intro c hc
    obtain ⟨l, hl, hc⟩ := List.mem_flatMap.1 hc
    exact (hline l hl).2 c hc
  have hentries : entriesOn ls = entriesOf kept := by
    unfold entriesOn entriesOf
    rw [hls.entries, List.map_map]
    rfl
  have hdocument := documentEntries?_lines (fun l hl => (hline l hl).1) hallowed
  rw [hentries] at hdocument
  exact parseDocument_of_told hdocument
    (ofEntries?_eq_some_iff.1 (ofEntries?_stating hs hkept hnodup))

/-- The settings of a document with a comment; those it does not state are defaults. -/
example : parseDocument "# shared by all queries\nnull_policy: fail_fast\n\ngroup_entries: 64\n"
    = .ok { nullPolicy := .failFast, groupEntries := 64 } := by
  decide +kernel

/-- A document without entries leaves all settings at their defaults. -/
theorem parseDocument_without_entries (hls : States ls []) :
    parseDocument (String.ofList (Yaml.Line.textOf ls)) = .ok {} := by
  have hdefault : ({} : Settings).NumbersFit := ⟨by decide, by decide, by decide⟩
  rw [parseDocument_stating hdefault (List.forall_mem_nil _) List.nodup_nil hls]
  exact validated_of_valid valid_default

/-- The document that states all settings, one on each line. -/
def document (s : Settings) : String :=
  String.ofList (Yaml.Line.textOf (s.statements.map fun st => .entry st.1.toList st.2))

/-- Valid settings are loaded from their own document. -/
theorem parseDocument_document (hs : s.NumbersFit) (hvalid : s.Valid) :
    parseDocument s.document = .ok s := by
  have hls : States (s.statements.map fun st => .entry st.1.toList st.2) s.statements := by
    refine ⟨rfl, fun text htext => ?_⟩
    obtain ⟨st, -, heq⟩ := List.mem_map.1 htext
    cases heq
  have hnames : s.statements.map Prod.fst = fieldNames.map Prod.fst := rfl
  have hnodup : (s.statements.map Prod.fst).Nodup := by
    rw [hnames]
    decide
  unfold document
  rw [parseDocument_stating hs (fun st h => h) hnodup hls, only_all, validated_of_valid hvalid]

/-! ## Files -/

/-- A file is refused for its document, or because it cannot be read; then the message names it. -/
theorem parseFile_eq_error {path : String} {content : Except String String}
    (h : parseFile path content = .error e) :
    (∃ text, content = .ok text ∧ parseDocument text = .error e) ∨
      ∃ reason, content = .error reason ∧ e.Names path := by
  cases content with
  | ok text => exact .inl ⟨text, rfl, h⟩
  | error reason =>
    obtain rfl := Except.error.inj h
    refine .inr ⟨reason, rfl, ?_⟩
    apply QueryError.names_configuration "Failed to read config file " (": " ++ reason)
    simp only [← String.append_assoc]
    rfl

end Settings

end StreamQuery
