import StreamQuery.Bytes.LittleEndian
import StreamQuery.Numeric.IntegerText
set_option autoImplicit false

/-!
# Texts inside quotes

Between its quotes a text stands as UTF-8 bytes, with escapes for the quote, the
backslash and the control characters.  Writing escapes no more than that, and uses
the short names where there are some.  Reading also takes escapes of any other
character by its code; one beyond sixteen bits is announced by a pair of codes.
What is between the quotes need not be a text at all: half a pair may stand alone,
and bytes need not be UTF-8.
-/

namespace StreamQuery.Json

/-- The ASCII character of a byte. -/
def charOf (b : UInt8) : Char := Char.ofNat b.toNat

/-- The byte that starts an escape. -/
def backslash : UInt8 := 0x5C

/-! ## Writing -/

/-- The letter after a backslash that stands for a character. -/
def escapeLetter? : Char → Option Char
  | '"' => some '"'
  | '\\' => some '\\'
  | '\x08' => some 'b'
  | '\t' => some 't'
  | '\n' => some 'n'
  | '\x0c' => some 'f'
  | '\r' => some 'r'
  | _ => none

/-- The hexadecimal digit of a number below sixteen. -/
def hexDigit (n : Nat) : UInt8 := (Nat.digitChar n).toUInt8

/-- The escape of a control character by its code. -/
def codeEscape (b : UInt8) : Bytes :=
  [backslash, 'u'.toUInt8, '0'.toUInt8, '0'.toUInt8, hexDigit (b.toNat / 16),
    hexDigit (b.toNat % 16)]

/-- How a byte of a text stands inside quotes. -/
def quotedByte (b : UInt8) : Bytes :=
  match escapeLetter? (charOf b) with
  | some letter => [backslash, letter.toUInt8]
  | none => if b < 0x20 then codeEscape b else [b]

/-- What stands between the quotes of a text. -/
def encodeText (s : String) : Bytes := (Bytes.ofString s).flatMap quotedByte

/-! ## Reading -/

/-- The character that a letter after a backslash stands for. -/
def ofEscapeLetter? : Char → Option Char
  | '"' => some '"'
  | '\\' => some '\\'
  | '/' => some '/'
  | 'b' => some '\x08'
  | 'f' => some '\x0c'
  | 'n' => some '\n'
  | 'r' => some '\r'
  | 't' => some '\t'
  | _ => none

/-- The code of four digits, and what follows. -/
def takeCode : Bytes → Option (Nat × Bytes)
  | a :: b :: c :: d :: rest =>
    (Numeric.readRadix? 16 ([a, b, c, d].map charOf)).map fun n => (n, rest)
  | _ => none

/-- The code after a backslash and the letter that announces it, and what follows. -/
def takeAnnouncedCode : Bytes → Option (Nat × Bytes)
  | b :: u :: rest => if b = backslash ∧ u = 'u'.toUInt8 then takeCode rest else none
  | _ => none

/-- The character of a code or of a pair of codes, and what follows. -/
def takeCoded (bs : Bytes) : Option (Char × Bytes) := do
  let (high, rest) ← takeCode bs
  if 0xDC00 ≤ high ∧ high ≤ 0xDFFF then none
  else if 0xD800 ≤ high ∧ high ≤ 0xDBFF then
    let (low, rest) ← takeAnnouncedCode rest
    if 0xDC00 ≤ low ∧ low ≤ 0xDFFF then
      return (Char.ofNat (0x10000 + (high - 0xD800) * 0x400 + (low - 0xDC00)), rest)
    else none
  else return (Char.ofNat high, rest)

/-- The character that stands after a backslash, and what follows. -/
def takeEscaped : Bytes → Option (Char × Bytes)
  | [] => none
  | b :: rest =>
    if b = 'u'.toUInt8 then takeCoded rest
    else (ofEscapeLetter? (charOf b)).map fun c => (c, rest)

/-- The bytes of a text by what stands between its quotes.  Every step takes at least one byte, and
`n` bounds their number. -/
def unescape : Nat → Bytes → Option Bytes
  | _, [] => some []
  | 0, _ :: _ => none
  | n + 1, b :: rest =>
    if b = backslash then do
      let (c, rest) ← takeEscaped rest
      let more ← unescape n rest
      return String.utf8EncodeChar c ++ more
    else (unescape n rest).map (b :: ·)

/-- The text by what stands between its quotes, when there is one. -/
def decodeText? (lexeme : Bytes) : Option String :=
  (unescape lexeme.length lexeme).bind Bytes.toString?

/-! ## What was written is read back -/

/-- The byte of the character of a byte is that byte. -/
theorem toUInt8_charOf (b : UInt8) : (charOf b).toUInt8 = b := by
  have h := b.toNat_lt
  have hvalue : (charOf b).val.toNat = b.toNat := by
    rw [charOf, Char.ofNat, dif_pos (.inl (by omega))]
    rfl
  apply UInt8.toNat_inj.1
  rw [Char.toUInt8, UInt32.toNat_toUInt8, hvalue, Nat.mod_eq_of_lt h]

/-- The ways in which a byte stands inside quotes: as it is, behind a backslash by its letter, or by
its code. -/
theorem quotedByte_cases (b : UInt8) :
    (quotedByte b = [b] ∧ b ≠ backslash) ∨
      (∃ u : UInt8, quotedByte b = [backslash, u] ∧ u ≠ 'u'.toUInt8 ∧
        ofEscapeLetter? (charOf u) = some (charOf b) ∧ b < 0x80) ∨
      (quotedByte b = codeEscape b ∧ b < 0x20) := by
  unfold quotedByte
  split
  · rename_i letter h
    refine .inr (.inl ⟨letter.toUInt8, rfl, ?_⟩)
    have hb := toUInt8_charOf b
    unfold escapeLetter? at h
    split at h <;> cases h <;> rename_i he <;> rw [he] at hb ⊢ <;> rw [← hb] <;> decide
  · split
    · rename_i h
      exact .inr (.inr ⟨rfl, h⟩)
    · rename_i h _
      refine .inl ⟨rfl, fun hb => ?_⟩
      subst hb
      exact absurd h (by decide)

/-- What holds for the bytes of all numbers below a bound holds for all bytes below it. -/
theorem forall_byte_lt {p : UInt8 → Prop} (k : UInt8)
    (h : ∀ n, n < k.toNat → p (UInt8.ofNat n)) (b : UInt8) (hb : b < k) : p b := by
  have := h b.toNat (UInt8.lt_iff_toNat_lt.1 hb)
  rwa [UInt8.ofNat_toNat] at this

/-- A byte below 128 is the whole of its character. -/
theorem utf8EncodeChar_charOf {b : UInt8} (h : b < 0x80) :
    String.utf8EncodeChar (charOf b) = [b] :=
  forall_byte_lt (p := fun b => String.utf8EncodeChar (charOf b) = [b]) 0x80 (by decide) b h

/-- The code of a control character reads back. -/
theorem takeCode_codeEscape {b : UInt8} (h : b < 0x20) (rest : Bytes) :
    takeCode ((codeEscape b).drop 2 ++ rest) = some (b.toNat, rest) := by
  have hn : Numeric.readRadix? 16 (((codeEscape b).drop 2).map charOf) = some b.toNat :=
    forall_byte_lt (p := fun b =>
      Numeric.readRadix? 16 (((codeEscape b).drop 2).map charOf) = some b.toNat) 0x20
      (by decide) b h
  simp only [codeEscape, List.drop_succ_cons, List.drop_zero, List.map_cons, List.map_nil] at hn ⊢
  simp only [takeCode, List.cons_append, List.nil_append, List.map_cons, List.map_nil, hn,
    Option.map_some]

/-- A byte is read back from what stands for it inside quotes. -/
theorem unescape_quotedByte (b : UInt8) (n : Nat) (rest : Bytes) :
    unescape (n + 1) (quotedByte b ++ rest) = (unescape n rest).map (b :: ·) := by
  rcases quotedByte_cases b with ⟨h, hb⟩ | ⟨u, h, hu, hl, hb⟩ | ⟨h, hb⟩
  · simp [h, unescape, hb]
  · simp only [h, List.cons_append, List.nil_append, unescape, takeEscaped, if_neg hu, hl, if_true]
    cases hr : unescape n rest <;> simp [hr, utf8EncodeChar_charOf hb]
  · have hc := takeCode_codeEscape hb rest
    have hlt : b.toNat < 0x20 := UInt8.lt_iff_toNat_lt.1 hb
    have he : takeCoded ((codeEscape b).drop 2 ++ rest) = some (charOf b, rest) := by
      simp only [takeCoded, hc, Option.bind_eq_bind, Option.bind_some]
      rw [if_neg (by omega), if_neg (by omega)]
      rfl
    simp only [codeEscape, List.drop_succ_cons, List.drop_zero, List.cons_append,
      List.nil_append] at he
    simp only [h, codeEscape, List.cons_append, List.nil_append, unescape, takeEscaped, he, if_true]
    have h80 : b < 0x80 := UInt8.lt_iff_toNat_lt.2 (Nat.lt_trans hlt (by decide))
    cases hr : unescape n rest <;> simp [hr, utf8EncodeChar_charOf h80]

/-- Bytes are read back from what stands for them inside quotes, in as many steps or more. -/
theorem unescape_quoted (bs : Bytes) {n : Nat} (h : bs.length ≤ n) :
    unescape n (bs.flatMap quotedByte) = some bs := by
  induction bs generalizing n with
  | nil => cases n <;> rfl
  | cons b bs ih =>
    cases n with
    | zero => simp at h
    | succ n =>
      rw [List.flatMap_cons, unescape_quotedByte, ih (by simpa using h)]
      rfl

/-- What stands for bytes inside quotes is no shorter than they are. -/
theorem length_le_length_quoted (bs : Bytes) : bs.length ≤ (bs.flatMap quotedByte).length := by
  induction bs with
  | nil => simp
  | cons b bs ih =>
    have : 1 ≤ (quotedByte b).length := by
      rcases quotedByte_cases b with ⟨h, -⟩ | ⟨u, h, -⟩ | ⟨h, -⟩ <;> rw [h] <;> simp [codeEscape]
    simp only [List.flatMap_cons, List.length_append, List.length_cons]
    omega

/-- A text is read back from what was written between its quotes. -/
theorem decodeText?_encodeText (s : String) : decodeText? (encodeText s) = some s := by
  rw [decodeText?, encodeText, unescape_quoted _ (length_le_length_quoted _)]
  simp only [Option.bind_some, Bytes.toString?, Bytes.ofString, Array.toArray_toList]
  exact dif_pos s.isValidUTF8

end StreamQuery.Json
