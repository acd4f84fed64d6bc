set_option autoImplicit false

/-!
# Blank characters

Text is trimmed, and tested for being blank, by the `White_Space` property of
the Unicode character database: twenty-five characters, among them the next-line
control U+0085 and the no-break space U+00A0, but neither the zero-width space
U+200B nor the byte-order mark U+FEFF.
-/

namespace StreamQuery.Text

/-- The `White_Space` property. -/
def isBlank (c : Char) : Bool :=
  let n := c.toNat
  (0x09 ≤ n && n ≤ 0x0D) || n == 0x20 || n == 0x85 || n == 0xA0 || n == 0x1680
    || (0x2000 ≤ n && n ≤ 0x200A) || n == 0x2028 || n == 0x2029 || n == 0x202F
    || n == 0x205F || n == 0x3000

/-- Drops the blanks at both ends. -/
def trimBlanks (cs : List Char) : List Char :=
  ((cs.dropWhile isBlank).reverse.dropWhile isBlank).reverse

/-- Drops the blanks at both ends of a text. -/
def trim (s : String) : String := String.ofList (trimBlanks s.toList)

/-- A text of blanks alone; the empty text is one. -/
def isBlankText (s : String) : Bool := s.toList.all isBlank

end StreamQuery.Text
