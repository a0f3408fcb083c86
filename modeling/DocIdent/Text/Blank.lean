/-!
# Blank text

A character is blank when it has the Unicode property White_Space (`Text.isBlank`), and a text is
blank when it holds nothing else (`Text.isBlankText`). The empty text is blank.
-/

namespace DocIdent.Text

/-- The ranges of code points with the property White_Space, ends included. -/
def blankRanges : List (Nat × Nat) :=
  [(0x9, 0xD), (0x20, 0x20), (0x85, 0x85), (0xA0, 0xA0), (0x1680, 0x1680), (0x2000, 0x200A),
    (0x2028, 0x2029), (0x202F, 0x202F), (0x205F, 0x205F), (0x3000, 0x3000)]

/-- A character is white space. -/
def isBlank (c : Char) : Bool :=
  blankRanges.any fun r => r.1 ≤ c.toNat && c.toNat ≤ r.2

/-- A text holds no character but white space. -/
def isBlankText (cs : List Char) : Bool :=
  cs.all isBlank

end DocIdent.Text
