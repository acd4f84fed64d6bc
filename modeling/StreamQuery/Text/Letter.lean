import StreamQuery.Text.CapitalTable
set_option autoImplicit false

/-!
# Letter case

Names of kinds are read in any case, by the full upper case of the Unicode
character database: a letter may become several characters (`ß` gives `SS`), and
a letter outside ASCII may become an ASCII one (`ſ` gives `S`).  Words of settings
and of aggregates are read by the ASCII case alone.
-/

namespace StreamQuery.Text

/-- The upper case of one character. -/
def upperChar (c : Char) : List Char :=
  match capitalSequences.lookup c.toNat with
  | some codes => codes.map Char.ofNat
  | none =>
    match capitalRuns.findSome? (·.capital? c.toNat) with
    | some code => [Char.ofNat code]
    | none => [c]

/-- The upper case of a text, character by character. -/
def upper (s : String) : String := String.ofList (s.toList.flatMap upperChar)

/-- ASCII capitals become small letters; all else stays. -/
def lowerAscii (s : String) : String := String.ofList (s.toList.map Char.toLower)

/-- ASCII small letters become capitals; all else stays. -/
def upperAscii (s : String) : String := String.ofList (s.toList.map Char.toUpper)

end StreamQuery.Text
