import Mathlib.Data.List.Forall2
import StreamQuery.Expansion
import StreamQuery.Proofs.Keyed
set_option autoImplicit false

/-!
# The rows of an expansion

Expanding goes record by record (`Expansion.expand_eq_flatMap`), and the rows of one record stand in
the order of the items or of the keys that they are made of (`Expansion.Spreads`).  An outer LATERAL
VIEW has a row for every record and changes no field but those of its aliases; both hold of a chain
of such views by induction over the chain (`Expansion.Keeps`).
-/

namespace StreamQuery

/-! ## Merging records -/

namespace Record

theorem fields_merge (r other : Record) : (r.merge other).fields
    = other.fields.entries.foldl (fun t e => t.insert e.1 e.2) r.fields := by
  unfold merge
  induction other.fields.entries generalizing r with
  | nil => rfl
  | cons e rest ih => exact ih (r.set e.1 e.2)

/-- A merged record has the fields of the other one, and its own where the other one has none. -/
theorem get?_merge (r other : Record) (name : String) :
    (r.merge other).get? name = (other.get? name).or (r.get? name) := by
  rw [get?, fields_merge]
  exact Keyed.get?_foldl_insert other.fields.ascending r.fields name

/-- A field of the other record is set on top of what was merged before. -/
theorem merge_set (r other : Record) (name : String) (v : Value) :
    r.merge (other.set name v) = (r.merge other).set name v := by
  apply ext_get?
  intro name'
  by_cases h : name = name'
  · subst h
    rw [get?_merge, get?_set_self, get?_set_self, Option.some_or]
  · rw [get?_merge, get?_set_of_ne other h, get?_set_of_ne (r.merge other) h, get?_merge]

/-- A record has the fields of another one, apart from those of some names. -/
def AgreesExcept (names : List String) (r row : Record) : Prop :=
  ∀ name, name ∉ names → row.get? name = r.get? name

end Record

/-- The number of items of a list or entries of a map. -/
def Value.partCount : Value → Nat
  | list items => items.length
  | map entries => entries.length
  | _ => 0

namespace Expansion

variable {e : Expansion} {r row : Record} {fs gs : List Expansion} {records more : List Record}

/-! ## What an expansion declares -/

/-- The expression whose value is expanded. -/
def source : Expansion → Expr
  | explode source _ _ _ => source
  | lateralView inner _ => inner.source

/-- The name of the field of items and keys. -/
def keyAlias : Expansion → String
  | explode _ keyAlias _ _ => keyAlias
  | lateralView inner _ => inner.keyAlias

/-- The name of the field of the values of entries. -/
def valueAlias? : Expansion → Option String
  | explode _ _ valueAlias _ => valueAlias
  | lateralView inner _ => inner.valueAlias?

/-- The names of the fields that an expansion sets. -/
def aliases (e : Expansion) : List String := e.keyAlias :: e.valueAlias?.toList

/-- The record on which the fields of a row are set. -/
def ground (r : Record) : Expansion → Record
  | explode .. => .empty
  | lateralView .. => r

/-- The value that an expansion takes apart. -/
def expanded (e : Expansion) (r : Record) : Value := e.source.evalOrNull Record.lookup r

/-- The row of an item. -/
def itemRow (e : Expansion) (r : Record) (item : Value) : Record := (e.ground r).set e.keyAlias item

/-- The row of an entry. -/
def keyedRow (e : Expansion) (r : Record) (entry : String × Value) : Record :=
  let row := e.itemRow r (.string entry.1)
  match e.valueAlias? with
  | some name => row.set name entry.2
  | none => row

/-- Where there is something to expand, there is a row for every item of a list and for every entry
of a map, in their order. -/
structure Spreads (e : Expansion) (r : Record) : Prop where
  list : ∀ items, e.expanded r = .list items → items ≠ [] → e.rows r = items.map (e.itemRow r)
  map : ∀ entries, e.expanded r = .map entries → entries ≠ [] →
    e.rows r = entries.map (e.keyedRow r)

/-- The key of one row is in front of the key of another one. -/
def KeyInFront (e : Expansion) (before after : Record) : Prop :=
  ∃ key key', before.get? e.keyAlias = some (.string key) ∧
    after.get? e.keyAlias = some (.string key') ∧ compare key key' = .lt

/-! ## The rows of one record -/

theorem orElse_of_ne_nil {outer : Bool} {rows : List Record} (h : rows ≠ []) :
    orElse outer r rows = rows := by
  rw [orElse, if_neg]
  rw [List.isEmpty_iff]
  exact fun hempty => h hempty.1

theorem orElse_outer_ne_nil (r : Record) (rows : List Record) : orElse true r rows ≠ [] := by
  unfold orElse
  split
  · exact List.cons_ne_nil _ _
  · rename_i h
    simpa using h

theorem mem_orElse {outer : Bool} {rows : List Record} (h : row ∈ orElse outer r rows) :
    row ∈ rows ∨ row = r := by
  unfold orElse at h
  split at h
  · exact .inr (List.mem_singleton.1 h)
  · exact .inl h

theorem spreads_explode (source : Expr) (keyAlias : String) (valueAlias : Option String)
    (outer : Bool) (r : Record) : Spreads (explode source keyAlias valueAlias outer) r where
  list items h hne := by
    have hvalue : source.evalOrNull Record.lookup r = .list items := h
    rw [rows, hvalue]
    exact orElse_of_ne_nil (mt List.map_eq_nil_iff.1 hne)
  map entries h hne := by
    have hvalue : source.evalOrNull Record.lookup r = .map entries := h
    rw [rows, hvalue]
    exact orElse_of_ne_nil (mt List.map_eq_nil_iff.1 hne)

/-- The row of an item on top of a record is the one that the view makes. -/
theorem merge_itemRow (h : e.isLateralView = false) (outer : Bool) (r : Record) (item : Value) :
    r.merge (e.itemRow r item) = (lateralView e outer).itemRow r item := by
  cases e with
  | explode source keyAlias valueAlias inner => exact Record.merge_set r .empty keyAlias item
  | lateralView inner outer => cases h

theorem merge_keyedRow (h : e.isLateralView = false) (outer : Bool) (r : Record)
    (entry : String × Value) :
    r.merge (e.keyedRow r entry) = (lateralView e outer).keyedRow r entry := by
  have hkey := merge_itemRow h outer r (.string entry.1)
  unfold keyedRow
  show r.merge _ = match e.valueAlias? with
    | some name => _
    | none => _
  cases e.valueAlias? with
  | none => exact hkey
  | some name => rw [Record.merge_set, hkey]

/-- A view spreads what the expansion in it spreads. -/
theorem Spreads.lateralView (h : Spreads e r) (hinner : e.isLateralView = false) (outer : Bool) :
    Spreads (lateralView e outer) r where
  list items hvalue hne := by
    have hmerged : (e.rows r).map r.merge
        = items.map ((Expansion.lateralView e outer).itemRow r) := by
      rw [h.list items hvalue hne, List.map_map]
      exact List.map_congr_left fun item _ => merge_itemRow hinner outer r item
    rw [rows, hmerged]
    exact orElse_of_ne_nil (mt List.map_eq_nil_iff.1 hne)
  map entries hvalue hne := by
    have hmerged : (e.rows r).map r.merge
        = entries.map ((Expansion.lateralView e outer).keyedRow r) := by
      rw [h.map entries hvalue hne, List.map_map]
      exact List.map_congr_left fun entry _ => merge_keyedRow hinner outer r entry
    rw [rows, hmerged]
    exact orElse_of_ne_nil (mt List.map_eq_nil_iff.1 hne)

theorem spreads_of_valid (h : e.validate = .ok ()) (r : Record) : Spreads e r := by
  cases e with
  | explode source keyAlias valueAlias outer => exact spreads_explode _ _ _ _ r
  | lateralView inner outer =>
    cases inner with
    | explode source keyAlias valueAlias inner =>
      exact (spreads_explode _ _ _ _ r).lateralView rfl outer
    | lateralView inner inner' => cases h

/-- Aliases of a valid expansion are different. -/
theorem valueAlias?_ne (h : e.validate = .ok ()) : e.valueAlias? ≠ some e.keyAlias := by
  have hcheck {keyAlias : String} {valueAlias : Option String}
      (hchecked : checkAliases keyAlias valueAlias = .ok ()) : valueAlias ≠ some keyAlias := by
    rintro rfl
    unfold checkAliases at hchecked
    split at hchecked
    · cases hchecked
    · split at hchecked
      · cases hchecked
      · rw [if_pos rfl] at hchecked
        cases hchecked
  cases e with
  | explode source keyAlias valueAlias outer => exact hcheck h
  | lateralView inner outer =>
    cases inner with
    | explode source keyAlias valueAlias inner => exact hcheck h
    | lateralView inner inner' => cases h

theorem get?_keyedRow (h : e.validate = .ok ()) (r : Record) (entry : String × Value) :
    (e.keyedRow r entry).get? e.keyAlias = some (.string entry.1) := by
  have hkey : (e.itemRow r (.string entry.1)).get? e.keyAlias = some (.string entry.1) :=
    Record.get?_set_self _ _ _
  have hne := valueAlias?_ne h
  unfold keyedRow
  revert hne
  cases e.valueAlias? with
  | none => exact fun _ => hkey
  | some name =>
    intro hne
    have hne' : name ≠ e.keyAlias := fun heq => hne (congrArg some heq)
    exact (Record.get?_set_of_ne _ hne' _).trans hkey

/-- The keys of a map ascend from row to row. -/
theorem pairwise_keyInFront (h : e.validate = .ok ()) {t : Keyed String Value}
    (hvalue : e.expanded r = .ofKeyed t) (hne : t.entries ≠ []) :
    (e.rows r).Pairwise (KeyInFront e) := by
  rw [(spreads_of_valid h r).map t.entries hvalue hne, List.pairwise_map]
  refine t.ascending.imp fun {entry entry'} hlt => ⟨entry.1, entry'.1, ?_, ?_, hlt⟩
  · exact get?_keyedRow h r entry
  · exact get?_keyedRow h r entry'

/-! ## What a view keeps -/

/-- The rows of a record: there are some, and each has all fields of the record apart from some. -/
structure Keeps (names : List String) (r : Record) (rows : List Record) : Prop where
  ne_nil : rows ≠ []
  agrees : ∀ row ∈ rows, r.AgreesExcept names row

/-- A row of an EXPLODE has no field but those of the aliases. -/
theorem get?_of_mem_partRows {keyAlias name : String} {valueAlias : Option String} {v : Value}
    (h : row ∈ partRows keyAlias valueAlias v) (hkey : name ≠ keyAlias)
    (hvalue : name ∉ valueAlias.toList) : row.get? name = none := by
  have hset (v : Value) : (Record.empty.set keyAlias v).get? name = none :=
    Record.get?_set_of_ne .empty (Ne.symm hkey) v
  cases v with
  | list items =>
    obtain ⟨item, -, rfl⟩ := List.mem_map.1 h
    exact hset item
  | map entries =>
    obtain ⟨entry, -, rfl⟩ := List.mem_map.1 h
    cases valueAlias with
    | none => exact hset _
    | some valueName =>
      have hne : valueName ≠ name := fun heq => hvalue (List.mem_singleton.2 heq.symm)
      exact (Record.get?_set_of_ne _ hne _).trans (hset _)
  | _ => cases h

/-- A field that no alias names is in a row as in the record, or in no row of an EXPLODE. -/
theorem get?_of_mem_rows {name : String} (h : row ∈ e.rows r) (hname : name ∉ e.aliases) :
    row.get? name = if e.isLateralView = true then r.get? name else none := by
  induction e generalizing row with
  | explode source keyAlias valueAlias outer =>
    have hnames := not_or.1 (mt List.mem_cons.2 hname)
    rcases mem_orElse h with hpart | rfl
    · exact get?_of_mem_partRows hpart hnames.1 hnames.2
    · rfl
  | lateralView inner outer ih =>
    rcases mem_orElse h with hmerged | rfl
    · obtain ⟨inside, hinside, rfl⟩ := List.mem_map.1 hmerged
      rw [Record.get?_merge, ih hinside hname, isLateralView]
      cases inner.isLateralView <;> cases r.get? name <;> rfl
    · rfl

/-- An outer view has a row, and changes no field but those of its aliases. -/
theorem keeps_rows (hview : e.isLateralView = true) (houter : e.isOuter = true) (r : Record) :
    Keeps e.aliases r (e.rows r) where
  ne_nil := by
    cases e with
    | explode => cases hview
    | lateralView inner outer =>
      cases houter
      exact orElse_outer_ne_nil r _
  agrees row hrow name hname := by
    rw [get?_of_mem_rows hrow hname, if_pos hview]

/-! ## Expanding by several expansions -/

theorem expand_append_records (records more : List Record) (fs : List Expansion) :
    expand (records ++ more) fs = expand records fs ++ expand more fs := by
  induction fs generalizing records more with
  | nil => rfl
  | cons e rest ih =>
    show expand ((records ++ more).flatMap fun r => e.rows r) rest = _
    rw [List.flatMap_append, ih]
    rfl

theorem expand_append (records : List Record) (fs gs : List Expansion) :
    expand records (fs ++ gs) = expand (expand records fs) gs :=
  List.foldl_append

/-- Every record is expanded on its own. -/
theorem expand_eq_flatMap (records : List Record) (fs : List Expansion) :
    expand records fs = records.flatMap fun r => expand [r] fs := by
  induction records with
  | nil =>
    induction fs with
    | nil => rfl
    | cons e rest ih => exact ih
  | cons r rest ih =>
    rw [List.flatMap_cons, ← ih, ← expand_append_records]
    rfl

/-- Outer views have rows for every record, and change no field but those of their aliases. -/
theorem keeps_expand (h : ∀ e ∈ fs, e.isLateralView = true ∧ e.isOuter = true) (r : Record) :
    Keeps (fs.flatMap aliases) r (expand [r] fs) := by
  induction fs generalizing r with
  | nil => exact ⟨List.cons_ne_nil _ _, fun row hrow _ _ => by rw [List.mem_singleton.1 hrow]⟩
  | cons e rest ih =>
    rw [List.forall_mem_cons] at h
    have hrows := keeps_rows h.1.1 h.1.2 r
    have hexpand : expand [r] (e :: rest) = (e.rows r).flatMap fun row => expand [row] rest := by
      rw [← expand_eq_flatMap]
      show expand ([r].flatMap fun r => e.rows r) rest = _
      rw [List.flatMap_singleton]
    rw [hexpand]
    constructor
    · obtain ⟨row, hrow⟩ := List.exists_mem_of_ne_nil _ hrows.ne_nil
      obtain ⟨out, hout⟩ := List.exists_mem_of_ne_nil _ (ih h.2 row).ne_nil
      exact List.ne_nil_of_mem (List.mem_flatMap.2 ⟨row, hrow, hout⟩)
    · intro out hout name hname
      rw [List.flatMap_cons, List.mem_append, not_or] at hname
      obtain ⟨row, hrow, hout⟩ := List.mem_flatMap.1 hout
      rw [(ih h.2 row).agrees out hout name hname.2, hrows.agrees row hrow name hname.1]

/-- A valid expansion has as many rows as its value has parts, where it has any. -/
theorem Spreads.length_rows (h : Spreads e r) (hparts : 0 < (e.expanded r).partCount) :
    (e.rows r).length = (e.expanded r).partCount := by
  cases hvalue : e.expanded r with
  | list items =>
    rw [hvalue] at hparts
    rw [h.list items hvalue (List.ne_nil_of_length_pos hparts), List.length_map]
    rfl
  | map entries =>
    rw [hvalue] at hparts
    rw [h.map entries hvalue (List.ne_nil_of_length_pos hparts), List.length_map]
    rfl
  | _ =>
    rw [hvalue] at hparts
    exact absurd hparts (Nat.lt_irrefl 0)

/-- Expanding loses nothing and mixes nothing.  Records are expanded one after another, and by one
expansion after another.  The rows of one record stand in the order of the items or entries they are
made of, and those of a map in the order of the keys.  By outer LATERAL VIEWs alone each record is
turned into rows of its own, at least one, with all fields as they were but those of aliases; and
such a view has as many rows as there are items or entries, where there are any. -/
theorem expand_keeps_rows (records more : List Record) (fs gs : List Expansion)
    (hvalid : ∀ e ∈ fs, e.validate = .ok ()) :
    expand (records ++ more) fs = expand records fs ++ expand more fs ∧
      expand records (fs ++ gs) = expand (expand records fs) gs ∧
      (∀ e ∈ fs, ∀ r, Spreads e r ∧ ∀ t : Keyed String Value, e.expanded r = .ofKeyed t →
        t.entries ≠ [] → (e.rows r).Pairwise (KeyInFront e)) ∧
      ((∀ e ∈ fs, e.isLateralView = true ∧ e.isOuter = true) →
        (∃ parts, expand records fs = parts.flatten ∧
          List.Forall₂ (Keeps (fs.flatMap aliases)) records parts) ∧
        ∀ e ∈ fs, ∀ r, 0 < (e.expanded r).partCount →
          (expand [r] [e]).length = (e.expanded r).partCount) := by
  refine ⟨expand_append_records records more fs, expand_append records fs gs, ?_,
    fun hviews => ⟨?_, ?_⟩⟩
  · intro e he r
    exact ⟨spreads_of_valid (hvalid e he) r, fun t => pairwise_keyInFront (hvalid e he)⟩
  · refine ⟨records.map fun r => expand [r] fs, ?_, ?_⟩
    · rw [expand_eq_flatMap, List.flatMap_def]
    · rw [List.forall₂_map_right_iff]
      exact List.forall₂_same.2 fun r _ => keeps_expand hviews r
  · intro e he r hparts
    have hrows : expand [r] [e] = e.rows r := List.append_nil _
    rw [hrows, (spreads_of_valid (hvalid e he) r).length_rows hparts]

/-- Words with how often they stand in a post. -/
def wordCounts : Keyed String Value := .ofList [("old", .long 2), ("new", .long 1)]

/-- A post with two tags and two words, and one without either. -/
def posts : List Record :=
  [.ofList [("id", .long 1), ("tags", .list [.string "x", .string "y"]),
      ("words", .ofKeyed wordCounts)],
    .ofList [("id", .long 2)]]

/-- Views of the tags and of the words. -/
def postViews : List Expansion :=
  [.lateralView (.explode (.column "tags") "tag" none false) true,
    .lateralView (.explode (.column "words") "word" (some "count") false) true]

theorem expand_keeps_rows_posts :
    (∀ e ∈ postViews, e.validate = .ok ()) ∧
      (∀ e ∈ postViews, e.isLateralView = true ∧ e.isOuter = true) ∧
      (∃ parts, expand posts postViews = parts.flatten ∧
        List.Forall₂ (Keeps ["tag", "word", "count"]) posts parts) ∧
      ∃ tags ∈ postViews, ∃ words ∈ postViews, ∃ post ∈ posts,
        (expand [post] [tags]).length = 2 ∧
        words.expanded post = .ofKeyed wordCounts ∧ wordCounts.entries ≠ [] ∧
        (words.rows post).Pairwise (KeyInFront words) := by
  have hvalid : ∀ e ∈ postViews, e.validate = .ok () := by decide +kernel
  have hviews : ∀ e ∈ postViews, e.isLateralView = true ∧ e.isOuter = true := by decide
  obtain ⟨-, -, hspreads, hall⟩ := expand_keeps_rows posts [] postViews [] hvalid
  obtain ⟨hparts, hcount⟩ := hall hviews
  have hne : wordCounts.entries ≠ [] := by decide +kernel
  refine ⟨hvalid, hviews, hparts, _, List.mem_cons_self, _,
    List.mem_cons_of_mem _ (List.mem_singleton_self _), _, List.mem_cons_self, ?_, rfl, hne, ?_⟩
  · exact hcount _ List.mem_cons_self _ (by decide +kernel)
  · exact (hspreads _ (List.mem_cons_of_mem _ (List.mem_singleton_self _)) _).2 _ rfl hne

end Expansion

end StreamQuery
