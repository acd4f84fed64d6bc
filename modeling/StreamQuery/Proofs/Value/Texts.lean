import StreamQuery.Proofs.Value.Integers
import StreamQuery.Proofs.Numeric.Numerals
import StreamQuery.Value.Cast
set_option autoImplicit false

/-!
# Values read from their texts

An INTEGER, a LONG or a BOOLEAN is read back from its text, whatever blanks stand around it, both by
a cast and as a literal.  The text of an integer is read at an integral kind exactly if the word of
that kind can hold the integer, and then it gives what a cast of the integer itself gives
(`Value.castThrough_string`).  Where the word is too small the two part: the cast of the integer
keeps the low bits, the cast of its text fails.
-/

namespace StreamQuery

/-! ## Words among blanks -/

namespace Text

/-- A word with blanks alone around it. -/
def Padded (word text : String) : Prop :=
  ∃ before after, isBlankText before = true ∧ isBlankText after = true ∧
    text = before ++ word ++ after

/-- A text of one character at least, none of them blank. -/
def IsWord (s : String) : Prop := s.toList ≠ [] ∧ ∀ c ∈ s.toList, isBlank c = false

theorem padded_self (word : String) : Padded word word :=
  ⟨"", "", rfl, rfl, by rw [String.empty_append, String.append_empty]⟩

section

variable {before word after : List Char}

/-- Blanks are dropped up to the first character of a word. -/
theorem dropWhile_isBlank (hbefore : ∀ c ∈ before, isBlank c = true) (hne : word ≠ [])
    (hword : ∀ c ∈ word, isBlank c = false) :
    (before ++ (word ++ after)).dropWhile isBlank = word ++ after := by
  rw [List.dropWhile_append_of_pos hbefore]
  cases word with
  | nil => exact absurd rfl hne
  | cons c rest =>
    refine List.dropWhile_cons_of_neg ?_
    rw [hword c List.mem_cons_self]
    exact Bool.false_ne_true

theorem trimBlanks_append (hbefore : ∀ c ∈ before, isBlank c = true)
    (hafter : ∀ c ∈ after, isBlank c = true) (hne : word ≠ [])
    (hword : ∀ c ∈ word, isBlank c = false) : trimBlanks (before ++ (word ++ after)) = word := by
  -- The blanks behind a word stand in front of it once the text is reversed.
  have hend : (after.reverse ++ (word.reverse ++ [])).dropWhile isBlank = word.reverse ++ [] :=
    dropWhile_isBlank (fun c hc => hafter c (List.mem_reverse.1 hc))
      (mt List.reverse_eq_nil_iff.1 hne) fun c hc => hword c (List.mem_reverse.1 hc)
  rw [List.append_nil] at hend
  rw [trimBlanks, dropWhile_isBlank hbefore hne hword, List.reverse_append, hend,
    List.reverse_reverse]

end

variable {word text : String}

theorem Padded.trimBlanks_eq (h : Padded word text) (hword : IsWord word) :
    trimBlanks text.toList = word.toList := by
  obtain ⟨before, after, hbefore, hafter, rfl⟩ := h
  rw [String.toList_append, String.toList_append, List.append_assoc]
  exact trimBlanks_append (List.all_eq_true.1 hbefore) (List.all_eq_true.1 hafter) hword.1 hword.2

theorem Padded.trim_eq (h : Padded word text) (hword : IsWord word) : trim text = word := by
  rw [trim, h.trimBlanks_eq hword, String.ofList_toList]

/-- A text is a word if it becomes one once its letters change case, for no blank does. -/
theorem IsWord.of_map {f : Char → Char} (hf : ∀ c, isBlank c = true → f c = c)
    (h : IsWord (String.ofList (word.toList.map f))) : IsWord word := by
  obtain ⟨hne, hblank⟩ := h
  rw [String.toList_ofList] at hne hblank
  refine ⟨fun hnil => hne (by rw [hnil, List.map_nil]), fun c hc => ?_⟩
  rw [Bool.eq_false_iff]
  intro hc'
  have hmapped := hblank (f c) (List.mem_map_of_mem hc)
  rw [hf c hc', hc'] at hmapped
  cases hmapped

theorem isBlank_of_isDigit {c : Char} (h : c.isDigit = true) : isBlank c = false := by
  have hc := Json.isDigit_iff.1 h
  rw [Bool.eq_false_iff]
  intro hblank
  simp only [isBlank, Bool.or_eq_true, Bool.and_eq_true, decide_eq_true_eq, beq_iff_eq] at hblank
  omega

/-- The text of an integer is a word. -/
theorem isWord_toString (n : Int) : IsWord (toString n) := by
  have hdigits : ∀ m, ∀ c ∈ Json.digits m, isBlank c = false :=
    fun m c hc => isBlank_of_isDigit (Json.isDigit_of_mem_digits hc)
  rw [IsWord, Json.toList_toString]
  split
  · exact ⟨Nat.toDigits_ne_nil, hdigits _⟩
  · exact ⟨List.cons_ne_nil _ _, List.forall_mem_cons.2 ⟨rfl, hdigits _⟩⟩

end Text

/-! ## Integers that fit a word -/

/-- The word of an integral kind can hold an integer. -/
def Kind.Fits (k : Kind) (n : Int) : Prop := Value.least k ≤ n ∧ n < -Value.least k

instance (k : Kind) (n : Int) : Decidable (k.Fits n) := inferInstanceAs (Decidable (_ ∧ _))

namespace Value

variable {v : Value} {k : Kind} {n : Int} {text : String}

theorem fits_kind (hv : v.integral? = some n) : v.kind.Fits n := by
  have hkind : widerKind v v = v.kind := by
    cases v <;> first | rfl | cases hv
  have hbounds := integral?_bounds hv v
  rwa [hkind] at hbounds

theorem isIntegral_of_integral? (hv : v.integral? = some n) : v.kind.isIntegral = true := by
  cases v <;> first | rfl | cases hv

/-- A cast between integral kinds wraps the integer around at the word. -/
theorem cast_integral (hv : v.integral? = some n) (hk : k.isIntegral = true) :
    v.cast k = .ok (wrapped k n) := by
  cases v with
  | integer x =>
    cases hv
    cases k with
    | integer => exact congrArg (Except.ok ∘ integer) (Int32.ofInt_toInt x).symm
    | long => exact congrArg (Except.ok ∘ long) (Int64.ofInt_int32ToInt x).symm
    | _ => cases hk
  | long x =>
    cases hv
    cases k with
    | integer => exact congrArg (Except.ok ∘ integer) (Int32.ofInt_int64ToInt x).symm
    | long => exact congrArg (Except.ok ∘ long) (Int64.ofInt_toInt x).symm
    | _ => cases hk
  | _ => cases hv

/-! ## Texts of integers -/

theorem text_of_integral? (hv : v.integral? = some n) : v.text = toString n := by
  cases v <;> cases hv <;> rfl

/-- The text of an integer stands for the integer at every integral kind that can hold it. -/
theorem convert?_padded (hk : k.isIntegral = true) (h : Text.Padded (toString n) text) :
    (string text).convert? k = if k.Fits n then some (wrapped k n) else none := by
  have htrim := h.trimBlanks_eq (Text.isWord_toString n)
  cases k with
  | integer =>
    show (Numeric.readInt32? (Text.trimBlanks text.toList)).map integer = _
    rw [htrim, Numeric.readInt32?_toString, apply_ite (Option.map integer)]
    rfl
  | long =>
    show (Numeric.readInt64? (Text.trimBlanks text.toList)).map long = _
    rw [htrim, Numeric.readInt64?_toString, apply_ite (Option.map long)]
    rfl
  | _ => cases hk

/-- A cast of a text fails exactly if the text stands for no value of the kind. -/
theorem cast_string_eq (hk : k ≠ .string) (text : String) :
    (string text).cast k = ((string text).convert? k).elim
      (.error (.typeMismatch k.name "STRING" (some text))) .ok := by
  have hkind : ¬ ((string text).kind = k ∨ (string text).isNull = true) := by
    rintro (rfl | hnull)
    · exact hk rfl
    · cases hnull
  rw [cast, if_neg hkind]
  cases (string text).convert? k <;> rfl

/-- A literal of an integral kind is what a cast of its text gives, with an error of its own. -/
theorem ofLiteral_integral (hk : k.isIntegral = true) (text : String) :
    ofLiteral text k = ((string text).convert? k).elim
      (.error (.execution (.invalidLiteral k text) none)) .ok := by
  cases k with
  | integer =>
    cases h : readInteger? text <;>
      simp only [ofLiteral, convert?, toInteger?, h, Option.map_none, Option.map_some, Option.elim]
  | long =>
    cases h : readLong? text <;>
      simp only [ofLiteral, convert?, toLong?, h, Option.map_none, Option.map_some, Option.elim]
  | _ => cases hk

theorem cast_padded (hk : k.isIntegral = true) (h : Text.Padded (toString n) text) :
    (string text).cast k = if k.Fits n then .ok (wrapped k n)
      else .error (.typeMismatch k.name "STRING" (some text)) := by
  have hstring : k ≠ .string := by
    rintro rfl
    cases hk
  rw [cast_string_eq hstring, convert?_padded hk h]
  by_cases hfits : k.Fits n
  · rw [if_pos hfits, if_pos hfits, Option.elim]
  · rw [if_neg hfits, if_neg hfits, Option.elim]

theorem reads_integral (hv : v.integral? = some n) (h : Text.Padded v.text text) :
    (string text).cast v.kind = .ok v ∧ ofLiteral text v.kind = .ok v := by
  have hk := isIntegral_of_integral? hv
  have hfits := fits_kind hv
  rw [text_of_integral? hv] at h
  have hconvert : (string text).convert? v.kind = some v := by
    rw [convert?_padded hk h, if_pos hfits, ← eq_wrapped hv]
  constructor
  · rw [cast_padded hk h, if_pos hfits, ← eq_wrapped hv]
  · rw [ofLiteral_integral hk, hconvert, Option.elim]

/-! ## Texts of truths -/

theorem isWord_boolean (b : Bool) : Text.IsWord (boolean b).text := by
  cases b <;> simp [Text.IsWord, Value.text, Text.isBlank]

theorem reads_boolean {b : Bool} (h : Text.Padded (boolean b).text text) :
    (string text).cast .boolean = .ok (boolean b) ∧ ofLiteral text .boolean = .ok (boolean b) := by
  -- A cast and a literal look the word up in different cases, and in different lists of words.
  have htrim := h.trim_eq (isWord_boolean b)
  have hcast : truthOfWord? text = some b := by
    rw [truthOfWord?, htrim]
    cases b <;> rfl
  have hliteral : readBoolean? text = some b := by
    rw [readBoolean?, htrim]
    cases b <;> rfl
  constructor
  · rw [cast_string_eq (by decide), convert?, toBoolean?, hcast, Option.map_some, Option.elim]
  · simp only [ofLiteral, hliteral, Option.map_some]

/-! ## Casts through a text -/

/-- Casts a value to one kind, and the result to another. -/
def castThrough (v : Value) (via target : Kind) : Outcome Value := do
  let w ← v.cast via
  w.cast target

theorem castThrough_of_cast {via target : Kind} {w : Value} (h : v.cast via = .ok w) :
    v.castThrough via target = w.cast target := by
  rw [castThrough, h]
  rfl

theorem cast_string (hv : v.kind.isIntegral = true ∨ v.kind = .boolean) :
    v.cast .string = .ok (string v.text) := by
  cases v with
  | boolean | integer | long => rfl
  | _ => rcases hv with hv | hv <;> cases hv

/-- A cast through the text agrees with the cast of the integer where the integer fits, and fails
where the cast of the integer wraps around. -/
theorem castThrough_string (hv : v.integral? = some n) (hk : k.isIntegral = true) :
    v.castThrough .string k = if k.Fits n then v.cast k
      else .error (.typeMismatch k.name "STRING" (some v.text)) := by
  have htext := cast_string (.inl (isIntegral_of_integral? hv))
  have hpadded : Text.Padded (toString n) v.text := text_of_integral? hv ▸ Text.padded_self _
  rw [castThrough_of_cast htext, cast_padded hk hpadded, cast_integral hv hk]

/-- INTEGER, LONG and BOOLEAN values are read back from their texts: by a cast to STRING and back,
and from the text among any blanks, by a cast and as a literal.  Every 32-bit integer is kept by the
casts from INTEGER to LONG and back, from INTEGER through its text to LONG, and from LONG through
its text to INTEGER.  The text of a LONG beyond 32 bits is no INTEGER, and casting it is a type
error. -/
theorem text_reads_back :
    (∀ v : Value, v.kind.isIntegral = true ∨ v.kind = .boolean →
      v.cast .string = .ok (string v.text) ∧ v.castThrough .string v.kind = .ok v ∧
        ∀ text, Text.Padded v.text text →
          (string text).cast v.kind = .ok v ∧ ofLiteral text v.kind = .ok v) ∧
      (∀ i : Int32, i.toInt64.toInt = i.toInt ∧
        (integer i).castThrough .long .integer = .ok (integer i) ∧
        (integer i).castThrough .string .long = .ok (long i.toInt64) ∧
        (long i.toInt64).castThrough .string .integer = .ok (integer i)) ∧
      ∀ l : Int64, l.toInt < -2 ^ 31 ∨ 2 ^ 31 ≤ l.toInt →
        (long l).castThrough .string .integer
          = .error (.typeMismatch "INTEGER" "STRING" (some (long l).text)) := by
  refine ⟨?_, ?_, ?_⟩
  · intro v hv
    have hreads : ∀ text, Text.Padded v.text text →
        (string text).cast v.kind = .ok v ∧ ofLiteral text v.kind = .ok v := by
      intro text h
      cases v with
      | boolean b => exact reads_boolean h
      | integer x => exact reads_integral rfl h
      | long x => exact reads_integral rfl h
      | _ => rcases hv with hv | hv <;> cases hv
    have htext := cast_string hv
    have hback := (hreads v.text (Text.padded_self _)).1
    exact ⟨htext, (castThrough_of_cast htext).trans hback, hreads⟩
  · intro i
    have hwiden : (integer i).cast .long = .ok (long i.toInt64) := rfl
    have hback : (long i.toInt64).cast .integer = .ok (integer i) :=
      congrArg (Except.ok ∘ integer) (Int32.toInt32_toInt64 i)
    have hfits : Kind.integer.Fits i.toInt := fits_kind (v := integer i) rfl
    have hlong : (long i.toInt64).integral? = some i.toInt :=
      congrArg some (Int32.toInt_toInt64 i)
    have hwide : Kind.long.Fits i.toInt := fits_kind hlong
    refine ⟨Int32.toInt_toInt64 i, (castThrough_of_cast hwiden).trans hback, ?_, ?_⟩
    · rw [castThrough_string (v := integer i) rfl rfl, if_pos hwide, hwiden]
    · rw [castThrough_string hlong rfl, if_pos hfits, hback]
  · intro l hl
    have hwraps : ¬ Kind.integer.Fits l.toInt := by
      rintro ⟨hlo, hhi⟩
      simp only [least, Kind.wordSize] at hlo hhi
      omega
    rw [castThrough_string (v := long l) rfl rfl, if_neg hwraps]
    rfl

/-- The least LONG, with blanks around its text, and the first LONG that is no INTEGER. -/
theorem text_reads_back_bounds :
    Text.Padded (long Int64.minValue).text "\t -9223372036854775808\u00a0" ∧
      (long Int64.minValue).castThrough .string .long = .ok (long Int64.minValue) ∧
      ofLiteral "\t -9223372036854775808\u00a0" .long = .ok (long Int64.minValue) ∧
      (integer Int32.minValue).castThrough .string .long = .ok (long (-2147483648)) ∧
      (2147483648 : Int64).toInt = 2 ^ 31 ∧
      (long 2147483648).castThrough .string .integer
        = .error (.typeMismatch "INTEGER" "STRING" (some "2147483648")) := by
  obtain ⟨hown, hchain, hbeyond⟩ := text_reads_back
  have hpadded : Text.Padded (long Int64.minValue).text "\t -9223372036854775808\u00a0" :=
    ⟨"\t ", "\u00a0", by decide, by decide, by decide⟩
  obtain ⟨-, hcast, hreads⟩ := hown (long Int64.minValue) (.inl rfl)
  have hnumber : (2147483648 : Int64).toInt = 2 ^ 31 := by decide
  exact ⟨hpadded, hcast, (hreads _ hpadded).2, (hchain Int32.minValue).2.2.1, hnumber,
    hbeyond 2147483648 (.inr hnumber.ge)⟩

end Value

end StreamQuery
