import Mathlib.Data.List.Forall2
import StreamQuery.Expr.Lookup
import StreamQuery.Proofs.Numeric.Numerals
set_option autoImplicit false

/-!
# Paths into a record

A name with dots spells a path: the field at which it starts, then keys of maps and indices of
lists.  Where no field has the whole name, looking the name up comes to the value at the end of the
path, if there is one, whatever way its indices are written (`Record.lookup_of_at`).  What is found
always lies where the name leads, and if nothing is found the error is about that name
(`Record.lookup_sound`).
-/

namespace StreamQuery

/-! ## Segments -/

theorem splitDots_eq_splitOn (cs : List Char) : splitDots cs = cs.splitOn '.' := by
  induction cs with
  | nil => rfl
  | cons c rest ih =>
    rw [List.splitOn_cons_eq_if_modifyHead, ← ih]
    by_cases hc : c = '.'
    · simp [splitDots, hc]
    · cases h : splitDots rest with
      | nil => exact absurd (ih ▸ h) (List.splitOn_ne_nil '.' rest)
      | cons segment more => simp [splitDots, hc, h]

/-- The name that a field and the segments after it spell. -/
def dotted (head : String) (segments : List String) : String := ".".intercalate (head :: segments)

theorem dotted_nil (head : String) : dotted head [] = head := String.intercalate_singleton

theorem toList_dotted (head : String) (segments : List String) :
    (dotted head segments).toList = ['.'].intercalate ((head :: segments).map String.toList) := by
  rw [dotted, String.toList_intercalate]
  rfl

/-- Segments without dots are read off the name that they spell. -/
theorem splitDots_dotted {head : String} {segments : List String} (hhead : '.' ∉ head.toList)
    (hsegments : ∀ text ∈ segments, '.' ∉ text.toList) :
    splitDots (dotted head segments).toList = head.toList :: segments.map String.toList := by
  rw [splitDots_eq_splitOn, toList_dotted, List.map_cons]
  refine List.splitOn_intercalate '.' ?_ (List.cons_ne_nil _ _)
  simpa using ⟨hhead, hsegments⟩

/-- A name is spelled by its segments. -/
theorem dotted_of_splitDots {name : String} {head : List Char} {segments : List (List Char)}
    (h : splitDots name.toList = head :: segments) :
    dotted (.ofList head) (segments.map String.ofList) = name := by
  refine String.toList_injective ?_
  have hlists :
      (List.map String.ofList (head :: segments)).map String.toList = head :: segments := by
    simp [List.map_map]
  rw [toList_dotted, ← List.map_cons, hlists, ← h, splitDots_eq_splitOn]
  exact List.intercalate_splitOn '.'

/-! ## Positions in a value -/

/-- A step into a value. -/
inductive Step where
  | key (k : String)
  | index (i : Nat)

/-- The value at the end of a sequence of steps into a value. -/
inductive Value.At : Value → List Step → Value → Prop
  | here (v : Value) : At v [] v
  | key {entries : List (String × Value)} {k : String} {v w : Value} {steps : List Step}
      (hv : Keyed.findEntry k entries = some v) (hw : At v steps w) :
      At (map entries) (.key k :: steps) w
  | index {items : List Value} {i : Nat} {v w : Value} {steps : List Step}
      (hv : items[i]? = some v) (hw : At v steps w) :
      At (list items) (.index i :: steps) w

/-! ## Steps as segments -/

/-- The texts of a step: a key without dots as it is, an index in decimal digits, with any number of
zeros in front.  An index fits a word of memory. -/
inductive Step.Written : Step → String → Prop
  | key {k : String} (h : '.' ∉ k.toList) : Written (.key k) k
  | index {i : Nat} (zeros : Nat) (h : i < Numeric.word64Bound) :
      Written (.index i) (.ofList (List.replicate zeros '0') ++ toString i)

/-- What a segment is taken for: a key in a map, an index in a list. -/
def Step.Reads : Step → String → Prop
  | key k, text => text = k
  | index i, text => Numeric.readWord64? text.toList = some i

namespace Step.Written

variable {step : Step} {text : String}

theorem toList_index (zeros i : Nat) :
    (String.ofList (List.replicate zeros '0') ++ toString i).toList
      = List.replicate zeros '0' ++ Json.digits i := by
  rw [String.toList_append, String.toList_ofList]
  exact congrArg _ Nat.toList_repr

theorem reads (h : Written step text) : step.Reads text := by
  cases h with
  | key => rfl
  | index zeros h =>
    rw [Reads, toList_index, Numeric.readWord64?,
      Numeric.readUnsigned?_of_isDigit fun c hc => Numeric.isDigit_of_mem_zeros hc,
      Numeric.readNat?_zeros]
    simp [h]

theorem no_dot (h : Written step text) : '.' ∉ text.toList := by
  cases h with
  | key h => exact h
  | index zeros =>
    rw [toList_index]
    intro hdot
    cases Numeric.isDigit_of_mem_zeros hdot

theorem no_dots {steps : List Step} {segments : List String}
    (h : List.Forall₂ Written steps segments) : ∀ text ∈ segments, '.' ∉ text.toList := by
  induction h with
  | nil => exact List.forall_mem_nil _
  | cons hstep _ ih => exact List.forall_mem_cons.2 ⟨hstep.no_dot, ih⟩

end Step.Written

/-! ## Following a path -/

/-- Segments lead to what stands at the end of the steps that they are taken for. -/
theorem Value.follow_eq_ok_iff {v w : Value} {segments : List String} :
    v.follow segments = .ok w ↔ ∃ steps, List.Forall₂ Step.Reads steps segments ∧ v.At steps w := by
  induction segments generalizing v with
  | nil =>
    constructor
    · intro h
      cases h
      exact ⟨[], .nil, .here _⟩
    · rintro ⟨steps, hsteps, hat⟩
      cases hsteps
      cases hat
      rfl
  | cons text rest ih =>
    constructor
    · intro h
      unfold follow at h
      split at h
      · rename_i heq
        cases heq
      · rename_i entries segment path heq
        cases heq
        split at h
        · rename_i x hx
          obtain ⟨steps, hsteps, hat⟩ := ih.1 h
          exact ⟨.key text :: steps, .cons rfl hsteps, .key hx hat⟩
        · cases h
      · rename_i items segment path heq
        cases heq
        split at h
        · rename_i x hx
          obtain ⟨i, hi, hx⟩ := Option.bind_eq_some_iff.1 hx
          obtain ⟨steps, hsteps, hat⟩ := ih.1 h
          exact ⟨.index i :: steps, .cons hi hsteps, .index hx hat⟩
        · cases h
      · cases h
    · rintro ⟨steps, hsteps, hat⟩
      cases hsteps with
      | cons hread hsteps =>
        cases hat with
        | key hx hat =>
          cases hread
          rw [follow, hx]
          exact ih.2 ⟨_, hsteps, hat⟩
        | index hx hat =>
          rw [Step.Reads] at hread
          rw [follow, hread, Option.bind_some, hx]
          exact ih.2 ⟨_, hsteps, hat⟩

namespace Record

variable {r : Record}

theorem lookup_of_get? {name : String} {v : Value} (h : r.get? name = some v) :
    lookup name r = .ok v := by
  rw [lookup, h]

/-- Where no field has the whole name, the name leads along the path that it spells. -/
theorem lookup_of_at {head : String} {v w : Value} {steps : List Step} {segments : List String}
    (hhead : '.' ∉ head.toList) (hv : r.get? head = some v) (hat : v.At steps w)
    (hsegments : List.Forall₂ Step.Written steps segments)
    (hname : r.get? (dotted head segments) = none) :
    lookup (dotted head segments) r = .ok w := by
  have hfollow : v.follow segments = .ok w :=
    Value.follow_eq_ok_iff.2 ⟨steps, hsegments.imp fun _ _ h => h.reads, hat⟩
  cases segments with
  | nil =>
    rw [dotted_nil, hv] at hname
    cases hname
  | cons text rest =>
    rw [lookup, hname]
    simp only [splitDots_dotted hhead (Step.Written.no_dots hsegments), List.map_cons]
    simp [follow, hv, hfollow, Except.mapError, List.map_map]

/-- What is found under a name stands at the end of a path that the name spells; otherwise the name
could not be looked up. -/
theorem lookup_sound (r : Record) (name : String) :
    (∃ head segments steps v w, name = dotted head segments ∧ r.get? head = some v ∧
        List.Forall₂ Step.Reads steps segments ∧ v.At steps w ∧ lookup name r = .ok w) ∨
      ∃ fault, lookup name r = .error (.lookup name fault) := by
  cases hname : r.get? name with
  | some v => exact .inl ⟨name, [], [], v, v, (dotted_nil name).symm, hname, .nil, .here v,
      lookup_of_get? hname⟩
  | none =>
    simp only [lookup, hname]
    split
    · rename_i head next rest hsplit
      cases hfollow : r.follow (.ofList head) ((next :: rest).map String.ofList) with
      | error fault => exact .inr ⟨fault, rfl⟩
      | ok w =>
        rw [follow] at hfollow
        split at hfollow
        · rename_i v hv
          obtain ⟨steps, hsteps, hat⟩ := Value.follow_eq_ok_iff.1 hfollow
          exact .inl ⟨_, _, steps, v, w, (dotted_of_splitDots hsplit).symm, hv, hsteps, hat, rfl⟩
        · cases hfollow
    · exact .inr ⟨_, rfl⟩

/-- Looking up a name reaches whatever lies in the record: a field of that name, and else the value
at the end of the path that the name spells, through maps and lists to any depth, the indices in
decimal digits.  What it finds lies in the record, and it fails for no other reason than that the
name cannot be looked up. -/
theorem lookup_reaches (r : Record) :
    (∀ head v steps w segments, '.' ∉ head.toList → r.get? head = some v → v.At steps w →
        List.Forall₂ Step.Written steps segments → r.get? (dotted head segments) = none →
        lookup (dotted head segments) r = .ok w) ∧
      (∀ name v, r.get? name = some v → lookup name r = .ok v) ∧
      ∀ name,
        (∃ head segments steps v w, name = dotted head segments ∧ r.get? head = some v ∧
            List.Forall₂ Step.Reads steps segments ∧ v.At steps w ∧ lookup name r = .ok w) ∨
          ∃ fault, lookup name r = .error (.lookup name fault) :=
  ⟨fun _ _ _ _ _ hhead hv hat hsegments hname => lookup_of_at hhead hv hat hsegments hname,
    fun _ _ => lookup_of_get?, lookup_sound r⟩

/-- The points of the sets of a match. -/
def setPoints : Value :=
  .map [("guest", .list [.long 3]), ("home", .list [.map [("", .long 6)], .map [("", .long 7)]])]

/-- A match, with a note whose name looks like a path. -/
def tennis : Record := .ofList [("sets", setPoints), ("sets.guest", .string "retired")]

/-- The guest's points are hidden by the note. -/
theorem lookup_reaches_sets :
    ('.' ∉ "sets".toList ∧ tennis.get? "sets" = some setPoints ∧
        setPoints.At [.key "home", .index 1, .key ""] (.long 7) ∧
        List.Forall₂ Step.Written [.key "home", .index 1, .key ""] ["home", "001", ""] ∧
        tennis.get? (dotted "sets" ["home", "001", ""]) = none) ∧
      lookup "sets.home.001." tennis = .ok (.long 7) ∧
      tennis.get? "sets.guest" = some (.string "retired") ∧
      lookup "sets.guest" tennis = .ok (.string "retired") := by
  have hat : setPoints.At [.key "home", .index 1, .key ""] (.long 7) :=
    .key rfl (.index rfl (.key rfl (.here _)))
  have hsegments : List.Forall₂ Step.Written [.key "home", .index 1, .key ""] ["home", "001", ""] :=
    .cons (.key (by decide)) (.cons (.index 2 (by decide)) (.cons (.key (by decide)) .nil))
  obtain ⟨hreach, hliteral, -⟩ := lookup_reaches tennis
  exact ⟨⟨by decide, rfl, hat, hsegments, rfl⟩,
    hreach "sets" setPoints _ _ _ (by decide) rfl hat hsegments rfl, rfl,
    hliteral "sets.guest" _ rfl⟩

/-- There is no third set. -/
example : lookup "sets.home.2." tennis = .error (.lookup "sets.home.2." (.noIndex "2")) := rfl

end Record

end StreamQuery
