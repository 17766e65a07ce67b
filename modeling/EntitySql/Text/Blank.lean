/-!
# Blank texts

A text is blank when all its characters are white space in the sense of the Unicode property
`White_Space`, which is listed here in full.
-/

namespace EntitySql

/-- The ranges of the property `White_Space`, both ends included. -/
def whiteSpaceRanges : List (Nat × Nat) :=
  [(0x09, 0x0D), (0x20, 0x20), (0x85, 0x85), (0xA0, 0xA0), (0x1680, 0x1680), (0x2000, 0x200A),
    (0x2028, 0x2029), (0x202F, 0x202F), (0x205F, 0x205F), (0x3000, 0x3000)]

/-- A character with the property `White_Space`. -/
def isWhiteSpace (c : Char) : Bool :=
  whiteSpaceRanges.any fun range => decide (range.1 ≤ c.toNat) && decide (c.toNat ≤ range.2)

/-- A text of white space only, the empty text included. -/
def isBlankText (s : String) : Bool :=
  s.toList.all isWhiteSpace

end EntitySql
